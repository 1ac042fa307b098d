/-
  File:      Activity/Row.lean
  Subject:   The activity row (`DBActivity`, `models/project_db.py`), the envelope test
             (`src/utils/encryption_check.py`), and what an ORM session writes back of a row.

  * `isEncryptedEnvelope`, `isPlain` -- the server's structural test, and the text that the
    client's encryption is for: there, not empty, and no envelope.

  Counts, flags, type and the refresh bookkeeping are columns that nothing here reads.
-/
import TraxJourney.Lib.Table
import Mathlib.Data.Int.Notation

namespace TraxJourney.Activity

open Lib

/-! ## 1. Envelopes -/

/-- `value.split(".")`, on characters. -/
def splitDots : List Char → List (List Char)
  | [] => [[]]
  | c :: cs =>
    match splitDots cs with
    | [] => []
    | p :: ps => if c = '.' then [] :: p :: ps else (c :: p) :: ps

theorem splitDots_of_not_mem {cs : List Char} (h : '.' ∉ cs) : splitDots cs = [cs] := by
  induction cs with
  | nil => rfl
  | cons c cs ih =>
    rw [List.mem_cons, not_or] at h
    simp [splitDots, ih h.2, Ne.symm h.1]

theorem splitDots_ne_nil (cs : List Char) : splitDots cs ≠ [] := by
  cases cs with
  | nil => exact List.cons_ne_nil _ _
  | cons c cs =>
    have ih := splitDots_ne_nil cs
    simp only [splitDots]
    split
    · contradiction
    · split <;> exact List.cons_ne_nil _ _

theorem splitDots_append {cs : List Char} (h : '.' ∉ cs) (rest : List Char) :
    splitDots (cs ++ '.' :: rest) = cs :: splitDots rest := by
  induction cs with
  | nil =>
    obtain ⟨p, ps, hp⟩ := List.exists_cons_of_ne_nil (splitDots_ne_nil rest)
    simp [splitDots, hp]
  | cons c cs ih =>
    rw [List.mem_cons, not_or] at h
    simp [splitDots, ih h.2, Ne.symm h.1]

def isEncryptedEnvelope : Option String → Bool
  | none => false
  | some value =>
    match splitDots value.toList with
    | [version, _, _] => version == ['v', '1']
    | _ => false

/-- `_holds_plaintext`, and `_isPlain` of the client. -/
def isPlain (v : Option String) : Bool := v.isSome && v != some "" && !isEncryptedEnvelope v

theorem isPlain_not_envelope {v : Option String} (h : isPlain v = true) : isEncryptedEnvelope v = false := by
  simp only [isPlain, Bool.and_eq_true, Bool.not_eq_true'] at h
  exact h.2

/-! ## 2. The row -/

/-- `_E2EE_ACTIVITY_COLUMNS`, in their order. -/
inductive TextColumn where
  | name
  | summaryPolyline
  | startLatlngJson
  | endLatlngJson
  | elevationProfileJson
  | elevationProfileLowResJson
  | originalPolyline
  | originalElevationProfileJson
  | originalStartLatlngJson
  | originalEndLatlngJson
deriving DecidableEq

def e2eeActivityColumns : List TextColumn :=
  [.name, .summaryPolyline, .startLatlngJson, .endLatlngJson, .elevationProfileJson,
   .elevationProfileLowResJson, .originalPolyline, .originalElevationProfileJson,
   .originalStartLatlngJson, .originalEndLatlngJson]

/-- The polyline, the profile at both resolutions and the end points. -/
def trackColumns : List TextColumn :=
  [.summaryPolyline, .elevationProfileJson, .elevationProfileLowResJson, .startLatlngJson,
   .endLatlngJson]

inductive Figure where
  | distance
  | movingTime
  | elapsedTime
  | totalElevationGain
  | averageSpeed
  | maxSpeed
  | elevHigh
  | elevLow
deriving DecidableEq

def figures : List Figure :=
  [.distance, .movingTime, .elapsedTime, .totalElevationGain, .averageSpeed, .maxSpeed,
   .elevHigh, .elevLow]

structure ActivityRow where
  id : ℤ
  userInfoId : ℕ
  stravaId : Option ℤ
  stravaUserId : Option ℕ
  text : TextColumn → Option String
  figure : Figure → Option Rat
  originalFigure : Figure → Option Rat
  isEdited : Bool
  startDate : String
  startDateLocal : String
  splitRootId : Option ℤ
  splitParentId : Option ℤ
  splitBaseName : Option String

abbrev ActivityTable := Table ActivityRow ActivityRow.id

def ActivityRow.hasId (id : ℤ) (r : ActivityRow) : Bool := r.id == id

@[simp] theorem ActivityRow.hasId_iff {id : ℤ} {r : ActivityRow} : r.hasId id = true ↔ r.id = id := beq_iff_eq

/-- The name column, which is never null. -/
def ActivityRow.name (r : ActivityRow) : String := (r.text .name).getD ""

def ActivityRow.withName (name : String) (r : ActivityRow) : ActivityRow :=
  { r with text := fun c => if c = .name then some name else r.text c }

/-- The texts that `/meta` lists as `plain_fields`. -/
def ActivityRow.plainFields (r : ActivityRow) : List TextColumn :=
  e2eeActivityColumns.filter fun c => isPlain (r.text c)

/-- The row a flush leaves of `cur`: the session loaded `loaded` and made it `new`. -/
def ActivityRow.flush (loaded new cur : ActivityRow) : ActivityRow where
  id := cur.id
  userInfoId := pick loaded.userInfoId new.userInfoId cur.userInfoId
  stravaId := cur.stravaId
  stravaUserId := cur.stravaUserId
  text := fun c => pick (loaded.text c) (new.text c) (cur.text c)
  figure := fun f => pick (loaded.figure f) (new.figure f) (cur.figure f)
  originalFigure := fun f => pick (loaded.originalFigure f) (new.originalFigure f) (cur.originalFigure f)
  isEdited := pick loaded.isEdited new.isEdited cur.isEdited
  startDate := pick loaded.startDate new.startDate cur.startDate
  startDateLocal := pick loaded.startDateLocal new.startDateLocal cur.startDateLocal
  splitRootId := cur.splitRootId
  splitParentId := cur.splitParentId
  splitBaseName := pick loaded.splitBaseName new.splitBaseName cur.splitBaseName

/-- The session changed a column. -/
def ActivityRow.dirty (loaded new : ActivityRow) : Bool :=
  new.userInfoId != loaded.userInfoId
  || e2eeActivityColumns.any (fun c => new.text c != loaded.text c)
  || figures.any (fun f => new.figure f != loaded.figure f)
  || figures.any (fun f => new.originalFigure f != loaded.originalFigure f)
  || new.isEdited != loaded.isEdited
  || new.startDate != loaded.startDate
  || new.startDateLocal != loaded.startDateLocal
  || new.splitBaseName != loaded.splitBaseName

/-- The flush into the table; `none` is the error of an `UPDATE` that finds no row. -/
def flushInto (rows : ActivityTable) (loaded new : ActivityRow) : Option ActivityTable :=
  if (rows.first (·.hasId loaded.id)).isSome then
    some (rows.update (·.hasId loaded.id) (loaded.flush new) fun _ => rfl)
  else if loaded.dirty new then none
  else some rows

theorem flush_text_of_eq {loaded new : ActivityRow} {c : TextColumn} (cur : ActivityRow)
    (h : new.text c = loaded.text c) : (loaded.flush new cur).text c = cur.text c := by
  show pick (loaded.text c) (new.text c) (cur.text c) = cur.text c
  rw [h, pick_self]

theorem mem_flushInto {rows rows' : ActivityTable} {loaded new r' : ActivityRow}
    (h : flushInto rows loaded new = some rows') (hr' : r' ∈ rows') :
    ∃ r ∈ rows, (r.id ≠ loaded.id ∧ r' = r) ∨ (r.id = loaded.id ∧ r' = loaded.flush new r) := by
  unfold flushInto at h
  split at h
  · cases h
    obtain ⟨r, hr, rfl⟩ := (Table.mem_update _).mp hr'
    refine ⟨r, hr, ?_⟩
    by_cases hid : r.id = loaded.id
    · exact .inr ⟨hid, by rw [if_pos (ActivityRow.hasId_iff.mpr hid)]⟩
    · exact .inl ⟨hid, by rw [if_neg (mt ActivityRow.hasId_iff.mp hid)]⟩
  · rename_i hnone
    split at h
    · cases h
    · cases h
      refine ⟨r', hr', .inl ⟨fun hid => hnone ?_, rfl⟩⟩
      obtain ⟨s, hs⟩ := Table.first_isSome (p := (·.hasId loaded.id)) hr' (ActivityRow.hasId_iff.mpr hid)
      rw [hs]
      rfl

theorem mem_flushInto_of_ne {rows rows' : ActivityTable} {loaded new r : ActivityRow}
    (h : flushInto rows loaded new = some rows') (hr : r ∈ rows) (hne : r.id ≠ loaded.id) :
    r ∈ rows' := by
  unfold flushInto at h
  split at h
  · cases h
    refine (Table.mem_update _).mpr ⟨r, hr, ?_⟩
    rw [if_neg (mt ActivityRow.hasId_iff.mp hne)]
  · split at h
    · cases h
    · cases h
      exact hr

end TraxJourney.Activity
