/-
  File:      Activity/System.lean
  Subject:   The clients of a trip's activity rows, statement by statement: the track edits,
             splits, resets and field updates of requests, the Strava refresh requests and jobs
             and the enrichment passes of `api/activities.py`, and the encryption catch-up of the
             client, `encryptTrip` of `flutter_client/lib/src/crypto/encryption_migration.dart`.

  * `Local`, `Act`, `step` -- a client and its statements. A read takes no lock and sees the last
    committed rows; a transaction's first write takes the lock until its commit, so from there on
    it is one step, `Act.commit`.

  Strava's answers, the ids that are drawn and the nonces are labels. Whether an account is still
  connected to Strava is one too. JSON, and the envelopes of the device's key, are the parameter
  `Device`, with what the catch-up relies on.
-/
import TraxJourney.Lib.Clients
import TraxJourney.Activity.Effects
import Mathlib.Data.Rat.Encodable
import Mathlib.Logic.Equiv.List

namespace TraxJourney.Activity

open Lib

/-! ## 1. The device -/

/-- What `json.loads` makes of an end point's text. -/
inductive Coordinates where
  | list (xs : List Rat)
  | other

/-- JSON on the shapes that the track endpoint serves, and envelopes under the user's key. Each
    `protect` draws its own key, here the nonce. -/
structure Device (Nonce : Type) where
  loadsLatlng : String → Option Coordinates
  loadsProfile : String → Option (List (Rat × Rat))
  encodeLatlng : List Rat → String
  encodeProfile : List (Rat × Rat) → String
  protect : Nonce → String → String
  decryptText : String → Option String
  loadsLatlng_encode : ∀ xs, loadsLatlng (encodeLatlng xs) = some (.list xs)
  loadsProfile_encode : ∀ ps, loadsProfile (encodeProfile ps) = some ps
  decrypt_protect : ∀ n v, decryptText (protect n v) = some v
  protect_envelope : ∀ n v, isEncryptedEnvelope (some (protect n v)) = true

/-- The answer of `GET …/track`, as far as the catch-up reads it. -/
structure Track where
  lockVersion : ℕ
  name : String
  summaryPolyline : Option String
  startLatlng : Option Coordinates
  endLatlng : Option Coordinates
  elevationProfile : Option (List (Rat × Rat))
  elevationProfileEnc : Option String
  original : TextColumn → Option String

variable {Nonce Point : Type} (d : Device Nonce)

/-- A column that `_row_to_activity` parses, absent where it is empty or an envelope; `none` is
    the error of a text it cannot parse. -/
def parsed {α : Type} (loads : String → Option α) (v : Option String) : Option (Option α) :=
  match v with
  | none => some none
  | some text => if text = "" ∨ isEncryptedEnvelope v then some none else (loads text).map some

def envelopeOf (v : Option String) : Option String := if isEncryptedEnvelope v then v else none

/-- `activity_rewritable_by_trip` or `activity_e2ee_writable_by`, for the owner of the trip. -/
def Store.getsOriginals (s : Store) (row : ActivityRow) : Bool :=
  row.userInfoId == s.ownerId || s.members.contains row.userInfoId

/-- The body of `get_activity_track`, the lock version having been read before. -/
def serveTrack (s : Store) (lockVersion : ℕ) (row : ActivityRow) : Option Track := do
  let startLatlng ← parsed d.loadsLatlng (row.text .startLatlngJson)
  let endLatlng ← parsed d.loadsLatlng (row.text .endLatlngJson)
  let full ← parsed d.loadsProfile (row.text .elevationProfileJson)
  let lowRes ← parsed d.loadsProfile (row.text .elevationProfileLowResJson)
  return {
    lockVersion := lockVersion
    name := row.name
    summaryPolyline := row.text .summaryPolyline
    startLatlng := startLatlng
    endLatlng := endLatlng
    elevationProfile := full.or lowRes
    elevationProfileEnc := (envelopeOf (row.text .elevationProfileJson)).or
      (envelopeOf (row.text .elevationProfileLowResJson))
    original := fun c => if row.isEdited && s.getsOriginals row then row.text c else none }

/-- `encrypt` of `_activityBody`. -/
def protectPlain (n : Nonce) (v : Option String) : Option (Option String) :=
  if isPlain v then v.map fun text => some (d.protect n text) else none

def protectList (n : Nonce) (v : Option Coordinates) : Option (Option String) :=
  match v with
  | some (.list xs) => protectPlain d n (some (d.encodeLatlng xs))
  | _ => none

def profileEnvelope (n : Nonce) (pairs : Option (List (Rat × Rat))) : Option (Option String) :=
  pairs.map fun ps => some (d.protect n (d.encodeProfile ps))

/-- `_activityBody`: the low-res profile comes after the full one, whose envelope it shares. -/
def activityBody (nonce : TextColumn → Nonce) (track : Track) (fields : List TextColumn) :
    FieldsUpdate := fun c =>
  let full := if .elevationProfileJson ∈ fields
    then profileEnvelope d (nonce .elevationProfileJson) track.elevationProfile else none
  match c with
  | .elevationProfileJson => full
  | .elevationProfileLowResJson =>
    match full with
    | some env => some env
    | none =>
      if .elevationProfileLowResJson ∈ fields then
        if isEncryptedEnvelope track.elevationProfileEnc then some track.elevationProfileEnc
        else profileEnvelope d (nonce .elevationProfileLowResJson) track.elevationProfile
      else none
  | c =>
    if c ∈ fields then
      match c with
      | .name => protectPlain d (nonce c) (some track.name)
      | .summaryPolyline => protectPlain d (nonce c) track.summaryPolyline
      | .startLatlngJson => protectList d (nonce c) track.startLatlng
      | .endLatlngJson => protectList d (nonce c) track.endLatlng
      | c => protectPlain d (nonce c) (track.original c)
    else none

def FieldsUpdate.isEmpty (data : FieldsUpdate) : Bool := e2eeActivityColumns.all fun c => (data c).isNone

/-! ## 2. Clients -/

/-- A client between two statements. The ids in `todo` are still to be done. -/
inductive Local (Point : Type) where
  | idle
  | pending (p : Pending Point)
  | refreshRequested (id : ℤ) (user : ℕ)
  | refreshFetching (id : ℤ) (user : ℕ)
  | refreshFetched (id : ℤ) (user : ℕ) (act : FetchedActivity)
  | refreshRow (row : ActivityRow) (act : FetchedActivity)
  | enrichBatch (user : ℕ) (todo : List ℤ) (anyEnriched : Bool)
  | enrichFetching (id : ℤ) (user : ℕ) (todo : List ℤ) (anyEnriched : Bool)
  | enrichFetched (id : ℤ) (polyline profile : Option String) (user : ℕ) (todo : List ℤ) (anyEnriched : Bool)
  | enrichRow (row : ActivityRow) (polyline profile : Option String) (user : ℕ) (todo : List ℤ)
      (anyEnriched : Bool)
  | enrichWriting (row : ActivityRow) (polyline profile : Option String) (user : ℕ)
      (todo : List ℤ) (anyEnriched : Bool)
  | payloadVersion (lockVersion : ℕ)
  | pass (todo : List (ℤ × List TextColumn)) (expected : ℕ)
  | trackVersion (lockVersion : ℕ) (id : ℤ) (fields : List TextColumn)
      (todo : List (ℤ × List TextColumn)) (expected : ℕ)
  | passTrack (track : Track) (id : ℤ) (fields : List TextColumn)
      (todo : List (ℤ × List TextColumn)) (expected : ℕ)
  | passPut (data : FieldsUpdate) (id : ℤ) (todo : List (ℤ × List TextColumn)) (expected : ℕ)
  | passWriting (row : ActivityRow) (data : FieldsUpdate) (todo : List (ℤ × List TextColumn)) (expected : ℕ)

/-- The transaction writes what Strava answered. -/
def Pending.fromStrava : Pending Point → Bool
  | .refresh _ _ _ | .enrichment _ _ _ => true
  | _ => false

/-- The transaction that a client is about to write. -/
def Local.pending? : Local Point → Option (Pending Point)
  | .pending p => some p
  | .enrichWriting row polyline profile _ _ _ => some (.enrichment row polyline profile)
  | .passWriting row data _ expected => some (.fields row data true (some expected))
  | _ => none

/-- The client after its transaction, committed or not. A `stale_write` ends a pass, any other
    failure skips the row. -/
def Local.after (s : Store) (committed : Bool) : Local Point → Local Point
  | .enrichWriting _ _ _ user todo anyEnriched => .enrichBatch user todo (anyEnriched || committed)
  | .passWriting _ _ todo expected =>
    if committed then .pass todo (expected + 1)
    else if s.lockVersion = expected then .pass todo expected else .idle
  | _ => .idle

/-- `expected` is an expected lock version, `connected` whether the account has a Strava client. -/
inductive Act (Nonce Point : Type) where
  | editTrack (id : ℤ) (points : List Point) (expected : Option ℕ)
  | editTrackEncrypted (id : ℤ) (piece : EncryptedPiece) (expected : ℕ)
  | split (id : ℤ) (splitIndex : ℕ) (dropBoundary : Bool) (points : Option (List Point)) (expected : Option ℕ)
  | splitEncrypted (id : ℤ) (headPiece tailPiece : EncryptedPiece) (tailName : String) (expected : ℕ)
  | reset (id : ℤ) (expected : Option ℕ)
  | updateFields (user : ℕ) (id : ℤ) (data : FieldsUpdate) (cas : Option ℕ)
  | requestRefresh (id : ℤ) (connected : Bool)
  | startJob (connected : Bool)
  | startEnrichment (user : ℕ) (ids : List ℤ) (connected : Bool)
  | checkEdited
  | fetched (act : FetchedActivity)
  | fetchedStreams (polyline profile : Option String)
  | readRow (named : Bool)
  | checkHeld
  | finish
  | commit (tailId : ℤ)
  | openTrip
  | readPayload
  | openTrack
  | readTrack
  | encrypt (nonce : TextColumn → Nonce)
  | put
  | abandon

def Store.partOfTrip (s : Store) (user : ℕ) : Bool := user == s.ownerId || s.members.contains user

def Store.refreshTarget (s : Store) (id : ℤ) : Option ActivityRow :=
  if s.items.contains id then s.row id
  else ((s.rows.rows.filter fun r => s.items.contains r.id && r.stravaId == some id).insertionSort
    fun r r' => r.id ≤ r'.id).head?

/-- `activity_is_edited`. -/
def Store.isEdited (s : Store) (id : ℤ) : Bool := (s.row id).any (·.isEdited)

/-- The activities of the payload that list `plain_fields`. -/
def Store.plainActivities (s : Store) : List (ℤ × List TextColumn) :=
  (s.items.reverse.dedup.reverse.map fun id =>
    (id, ((s.row id).map ActivityRow.plainFields).getD [])).filter fun a => !a.2.isEmpty

/-- A split's two pieces; `none` is the `ValueError` of an index out of range. -/
def cut (points : List Point) (splitIndex : ℕ) (dropBoundary : Bool) : Option (List Point × List Point) :=
  let minTailStart := if dropBoundary then splitIndex + 1 else splitIndex
  if splitIndex < 1 ∨ points.length < minTailStart + 2 then none
  else some (points.take (splitIndex + 1), points.drop minTailStart)

section Step

variable (m : TrackMath Point)

/-- A request that reads its row `id` and comes to its first write unless `check` refuses. -/
def readFor (s : Store) (id : ℤ) (check : ActivityRow → Option (Pending Point)) : Local Point :=
  match (s.row id).bind check with
  | some p => .pending p
  | none => .idle

/-- The reading statements; `none` where the client has no such statement. -/
def read (l : Local Point) (a : Act Nonce Point) (s : Store) : Option (Local Point) :=
  match l, a with
  | .idle, .editTrack id points expected => some <| readFor s id fun row =>
    if row.encryptedGeometry then none else some (.edit row points expected)
  | .idle, .editTrackEncrypted id piece expected => some <| readFor s id fun row =>
    if isEncryptedEnvelope (row.text .summaryPolyline)
    then some (.editEncrypted row piece expected) else none
  | .idle, .split id splitIndex dropBoundary points expected => some <| readFor s id fun row =>
    if row.encryptedGeometry then none
    else
      let points := points.getD
        (m.alignPoints (row.text .summaryPolyline) (row.text .elevationProfileJson))
      (cut points splitIndex dropBoundary).map fun c => .split row c.1 c.2 expected
  | .idle, .splitEncrypted id headPiece tailPiece tailName expected =>
    some <| readFor s id fun row =>
      if isEncryptedEnvelope (row.text .summaryPolyline)
      then some (.splitEncrypted row headPiece tailPiece tailName expected) else none
  | .idle, .reset id expected => some <| readFor s id fun row =>
    if row.resettable then some (.reset row expected) else none
  | .idle, .updateFields user id data cas => some <| readFor s id fun row =>
    if row.userInfoId = user ∧ (cas.isSome → s.items.contains id)
    then some (.fields row data (s.items.contains id) cas) else none
  -- the check of the request, for the job it starts
  | .idle, .requestRefresh id connected => some <|
      match s.refreshTarget id with
      | none => .idle
      | some row =>
        if row.isEdited || row.stravaId.isNone || !connected then .idle
        else match row.stravaUserId with
          | none => .idle
          | some user => if s.partOfTrip user then .refreshRequested row.id user else .idle
  | .refreshRequested id user, .startJob connected => some <|
      if ((s.row id).bind (·.stravaId)).isSome && s.partOfTrip user && connected
      then .refreshFetching id user else .idle
  | .refreshFetching id user, .fetched act => some (.refreshFetched id user act)
  | .refreshFetched id user act, .readRow named => some <|
      match s.row id with
      | none => .idle
      | some row =>
        if row.stravaUserId ≠ some user then .idle
        else if named then .refreshRow row act else .pending (.refresh row act false)
  | .refreshRow row act, .checkHeld => some <|
      if s.items.contains row.id then .pending (.refresh row act true) else .idle
  | .idle, .startEnrichment user ids connected => some <|
      if s.partOfTrip user && connected then
        .enrichBatch user (ids.filter fun id => s.items.contains id &&
          (s.row id).any fun r => r.stravaUserId == some user && r.stravaId.isSome) false
      else .idle
  | .enrichBatch user (id :: todo) any, .checkEdited => some <|
      if s.isEdited id then .enrichBatch user todo any else .enrichFetching id user todo any
  | .enrichFetching id user todo any, .fetchedStreams polyline profile => some <|
      if polyline.isSome || profile.isSome then .enrichFetched id polyline profile user todo any
      else .enrichBatch user todo any
  | .enrichFetched id polyline profile user todo any, .readRow _ => some <|
      match s.row id with
      | none => .enrichBatch user todo true
      | some row =>
        if row.stravaUserId ≠ some user then .enrichBatch user todo true
        else .enrichRow row polyline profile user todo any
  | .enrichRow row polyline profile user todo any, .checkHeld => some <|
      if s.items.contains row.id then .enrichWriting row polyline profile user todo any
      else .enrichBatch user todo true
  | .idle, .openTrip => some (.payloadVersion s.lockVersion)
  | .payloadVersion v, .readPayload => some (.pass s.plainActivities v)
  | .pass ((id, fields) :: todo) expected, .openTrack =>
    some (.trackVersion s.lockVersion id fields todo expected)
  | .trackVersion v id fields todo expected, .readTrack => some <|
      match (if s.items.contains id then s.row id else none).bind (serveTrack d s v) with
      | none => .pass todo expected
      | some track => if v = expected then .passTrack track id fields todo expected else .idle
  | .passTrack track id fields todo expected, .encrypt nonce => some <|
      let data := activityBody d nonce track fields
      if data.isEmpty then .pass todo expected else .passPut data id todo expected
  | .passPut data id todo expected, .put => some <|
      match s.row id with
      | none => .pass todo expected
      | some row =>
        if row.userInfoId = s.ownerId ∧ s.items.contains id
        then .passWriting row data todo expected else .pass todo expected
  | _, .abandon => some .idle
  | _, _ => none

/-- One statement of a client. -/
def step (l : Local Point) (a : Act Nonce Point) (s : Store) : Option (Local Point × Store) :=
  match a with
  | .commit tailId => l.pending?.map fun p =>
    match commit m s tailId p with
    | none => (l.after s false, s)
    | some s' => (l.after s true, s')
  | .finish =>
    match l with
    | .enrichBatch _ _ true => some (.idle, { s with lockVersion := s.lockVersion + 1 })
    | .enrichBatch _ _ false => some (.idle, s)
    | _ => none
  | a => (read d m l a s).map fun l' => (l', s)

end Step

/-- Clients that have not begun, over a store. -/
def idleClients {ι : Type} (s : Store) : Clients ι (Local Point) Store := ⟨fun _ => .idle, s⟩

/-! ## 3. The steps, said once -/

/-- What a reading statement can do: the client goes on with what the store `s` shows it. -/
inductive Reads (d : Device Nonce) (s : Store) : Local Point → Local Point → Prop
  | stop (l) : Reads d s l .idle
  | request (p) (hr : p.row ∈ s.rows) (hp : p.fromStrava = false) : Reads d s .idle (.pending p)
  | requestRefresh (row user) (hr : row ∈ s.rows) (he : row.isEdited = false) :
      Reads d s .idle (.refreshRequested row.id user)
  | startJob (id user) : Reads d s (.refreshRequested id user) (.refreshFetching id user)
  | fetched (id user act) : Reads d s (.refreshFetching id user) (.refreshFetched id user act)
  | refreshRow (row user act) (hr : row ∈ s.rows) :
      Reads d s (.refreshFetched row.id user act) (.refreshRow row act)
  | refreshUnnamed (row user act) (hr : row ∈ s.rows) :
      Reads d s (.refreshFetched row.id user act) (.pending (.refresh row act false))
  | refreshHeld (row act) (hitem : row.id ∈ s.items) :
      Reads d s (.refreshRow row act) (.pending (.refresh row act true))
  | enrichBatch (l user todo any) : Reads d s l (.enrichBatch user todo any)
  | enrichChecked (id user todo any) (he : s.isEdited id = false) :
      Reads d s (.enrichBatch user (id :: todo) any) (.enrichFetching id user todo any)
  | enrichFetched (id polyline profile user todo any) : Reads d s
      (.enrichFetching id user todo any) (.enrichFetched id polyline profile user todo any)
  | enrichRow (row polyline profile user todo any) (hr : row ∈ s.rows) : Reads d s
      (.enrichFetched row.id polyline profile user todo any)
      (.enrichRow row polyline profile user todo any)
  | enrichHeld (row polyline profile user todo any) (hitem : row.id ∈ s.items) : Reads d s
      (.enrichRow row polyline profile user todo any)
      (.enrichWriting row polyline profile user todo any)
  | openTrip : Reads d s .idle (.payloadVersion s.lockVersion)
  | payload (v) : Reads d s (.payloadVersion v) (.pass s.plainActivities v)
  | openTrack (id fields todo expected) : Reads d s (.pass ((id, fields) :: todo) expected)
      (.trackVersion s.lockVersion id fields todo expected)
  | noTrack (v id fields todo expected)
      (hnone : ∀ row ∈ s.rows, row.id = id → id ∈ s.items → serveTrack d s v row = none) :
      Reads d s (.trackVersion v id fields todo expected) (.pass todo expected)
  | track (row track fields todo expected) (hr : row ∈ s.rows)
      (htrack : serveTrack d s expected row = some track) : Reads d s
      (.trackVersion expected row.id fields todo expected)
      (.passTrack track row.id fields todo expected)
  | nothingPlain (nonce track id fields todo expected)
      (hempty : (activityBody d nonce track fields).isEmpty = true) : Reads d s
      (.passTrack track id fields todo expected) (.pass todo expected)
  | encrypt (nonce track id fields todo expected)
      (hbody : (activityBody d nonce track fields).isEmpty = false) : Reads d s
      (.passTrack track id fields todo expected)
      (.passPut (activityBody d nonce track fields) id todo expected)
  | refused (data id todo expected)
      (hrefused : ∀ row ∈ s.rows, row.id = id → id ∈ s.items → row.userInfoId ≠ s.ownerId) :
      Reads d s (.passPut data id todo expected) (.pass todo expected)
  | put (row data todo expected) (hr : row ∈ s.rows) (howner : row.userInfoId = s.ownerId)
      (hitem : row.id ∈ s.items) :
      Reads d s (.passPut data row.id todo expected) (.passWriting row data todo expected)

theorem Store.refreshTarget_some {s : Store} {id : ℤ} {r : ActivityRow}
    (h : s.refreshTarget id = some r) : r ∈ s.rows := by
  unfold Store.refreshTarget at h
  split at h
  · exact (Store.row_some h).1
  · have hmem := (List.mem_insertionSort _).mp (List.mem_of_head? h)
    exact (List.mem_filter.mp hmem).1

variable {d : Device Nonce}

theorem reads_readFor {s : Store} {id : ℤ} {check : ActivityRow → Option (Pending Point)}
    (hc : ∀ r p, check r = some p → p.row = r ∧ p.fromStrava = false) :
    Reads d s .idle (readFor s id check) := by
  unfold readFor
  split
  · rename_i p hp
    obtain ⟨r, hrow, hr⟩ := Option.bind_eq_some_iff.mp hp
    obtain ⟨rfl, hp⟩ := hc r p hr
    exact .request p (Store.row_some hrow).1 hp
  · exact .stop _

variable {l l' : Local Point} {a : Act Nonce Point}

theorem read_cases {m : TrackMath Point} {s : Store} (h : read d m l a s = some l') : Reads d s l l' := by
  unfold read at h
  split at h
  case h_1 | h_2 | h_4 | h_5 | h_6 =>
    cases h
    refine reads_readFor fun r p hp => ?_
    simp only [Option.ite_none_left_eq_some, Option.ite_none_right_eq_some] at hp
    obtain ⟨-, hp⟩ := hp
    cases hp
    exact ⟨rfl, rfl⟩
  case h_3 =>
    cases h
    refine reads_readFor fun r p hp => ?_
    simp only [Option.ite_none_left_eq_some, Option.map_eq_some_iff] at hp
    obtain ⟨-, c, -, rfl⟩ := hp
    exact ⟨rfl, rfl⟩
  case h_7 =>
    -- the check of a refresh request
    cases h
    split
    · exact .stop _
    · rename_i row hrow
      split
      · exact .stop _
      · rename_i hedited
        simp only [Bool.or_eq_true, not_or, Bool.not_eq_true] at hedited
        split
        · exact .stop _
        · split
          · exact .requestRefresh row _ (Store.refreshTarget_some hrow) hedited.1.1
          · exact .stop _
  case h_8 =>
    cases h
    split
    · exact .startJob _ _
    · exact .stop _
  case h_9 =>
    cases h
    exact .fetched _ _ _
  case h_10 =>
    cases h
    split
    · exact .stop _
    · rename_i row hrow
      obtain ⟨hr, rfl⟩ := Store.row_some hrow
      split
      · exact .stop _
      · split
        · exact .refreshRow row _ _ hr
        · exact .refreshUnnamed row _ _ hr
  case h_11 =>
    cases h
    split
    · rename_i hitem
      exact .refreshHeld _ _ (List.contains_iff_mem.mp hitem)
    · exact .stop _
  case h_12 =>
    cases h
    split
    · exact .enrichBatch _ _ _ _
    · exact .stop _
  case h_13 =>
    cases h
    split
    · exact .enrichBatch _ _ _ _
    · rename_i he
      exact .enrichChecked _ _ _ _ (Bool.eq_false_iff.mpr he)
  case h_14 =>
    cases h
    split
    · exact .enrichFetched _ _ _ _ _ _
    · exact .enrichBatch _ _ _ _
  case h_15 =>
    cases h
    split
    · exact .enrichBatch _ _ _ _
    · rename_i row hrow
      obtain ⟨hr, rfl⟩ := Store.row_some hrow
      split
      · exact .enrichBatch _ _ _ _
      · exact .enrichRow row _ _ _ _ _ hr
  case h_16 =>
    cases h
    split
    · rename_i hitem
      exact .enrichHeld _ _ _ _ _ _ (List.contains_iff_mem.mp hitem)
    · exact .enrichBatch _ _ _ _
  case h_17 =>
    cases h
    exact .openTrip
  case h_18 =>
    cases h
    exact .payload _
  case h_19 =>
    cases h
    exact .openTrack _ _ _ _
  case h_20 v id fields todo expected =>
    cases h
    split
    · rename_i hnone
      refine .noTrack _ _ _ _ _ fun row hr hid hitem => ?_
      subst hid
      rwa [if_pos (List.contains_iff_mem.mpr hitem), Store.row_of_mem hr, Option.bind_some] at hnone
    · rename_i track htrack
      obtain ⟨row, hrow, hserve⟩ := Option.bind_eq_some_iff.mp htrack
      split
      · rename_i hv
        subst hv
        split at hrow
        · obtain ⟨hr, rfl⟩ := Store.row_some hrow
          exact .track row track _ _ _ hr hserve
        · cases hrow
      · exact .stop _
  case h_21 =>
    cases h
    dsimp only
    split
    · rename_i hempty
      exact .nothingPlain _ _ _ _ _ _ hempty
    · rename_i hbody
      exact .encrypt _ _ _ _ _ _ (Bool.eq_false_iff.mpr hbody)
  case h_22 =>
    cases h
    split
    · rename_i hnone
      refine .refused _ _ _ _ fun row hr hid => ?_
      rw [← hid, Store.row_of_mem hr] at hnone
      cases hnone
    · rename_i row hrow
      obtain ⟨hr, rfl⟩ := Store.row_some hrow
      split
      · rename_i hput
        exact .put row _ _ _ hr hput.1 (List.contains_iff_mem.mp hput.2)
      · rename_i hput
        refine .refused _ _ _ _ fun row' hr' hid hitem howner => hput ?_
        obtain rfl := Table.eq_of_key hr' hr hid
        exact ⟨howner, List.contains_iff_mem.mpr hitem⟩
  case h_23 =>
    cases h
    exact .stop _
  case h_24 => cases h

theorem step_cases {m : TrackMath Point} {s s' : Store} (h : step d m l a s = some (l', s')) :
    (Reads d s l l' ∧ s' = s) ∨
    (∃ t p, a = .commit t ∧ l.pending? = some p ∧ commit m s t p = none ∧ l' = l.after s false ∧ s' = s) ∨
    (∃ t p, a = .commit t ∧ l.pending? = some p ∧ commit m s t p = some s' ∧ l' = l.after s true) ∨
    (a = .finish ∧ l' = .idle ∧ s'.rows = s.rows ∧
      (s' = s ∨ s' = { s with lockVersion := s.lockVersion + 1 })) := by
  cases a with
  | commit t =>
    obtain ⟨p, hp, he⟩ := Option.map_eq_some_iff.mp h
    cases hc : commit m s t p with
    | none =>
      simp only [hc] at he
      cases he
      exact .inr (.inl ⟨t, p, rfl, hp, hc, rfl, rfl⟩)
    | some s₁ =>
      simp only [hc] at he
      cases he
      exact .inr (.inr (.inl ⟨t, p, rfl, hp, hc, rfl⟩))
  | finish =>
    simp only [step] at h
    split at h
    · cases h
      exact .inr (.inr (.inr ⟨rfl, rfl, rfl, .inr rfl⟩))
    · cases h
      exact .inr (.inr (.inr ⟨rfl, rfl, rfl, .inl rfl⟩))
    · cases h
  | _ =>
    obtain ⟨l₁, hr, he⟩ := Option.map_eq_some_iff.mp h
    cases he
    exact .inl ⟨read_cases hr, rfl⟩

/-! ## 4. A device and a track to run -/

/-- The letters in pairs, without a dot among them. -/
def escapeDots : List Char → List Char
  | [] => []
  | c :: cs => if c = '.' then 'd' :: 'd' :: escapeDots cs else 'c' :: c :: escapeDots cs

def unescapeDots : List Char → List Char
  | k :: c :: cs => (if k = 'd' then '.' else c) :: unescapeDots cs
  | _ => []

theorem unescapeDots_escapeDots (cs : List Char) : unescapeDots (escapeDots cs) = cs := by
  induction cs with
  | nil => rfl
  | cons c cs ih =>
    by_cases hc : c = '.'
    · simp [escapeDots, unescapeDots, hc, ih]
    · simp [escapeDots, unescapeDots, hc, ih]

theorem dot_not_mem_escapeDots (cs : List Char) : '.' ∉ escapeDots cs := by
  induction cs with
  | nil => simp [escapeDots]
  | cons c cs ih =>
    by_cases hc : c = '.'
    · simp [escapeDots, hc, ih]
    · simp [escapeDots, hc, ih, Ne.symm hc]

/-- An envelope whose key is `n` letters long. -/
def letterEnvelope (n : ℕ) (v : String) : String :=
  String.ofList (['v', '1', '.'] ++ List.replicate n 'k' ++ '.' :: escapeDots v.toList)

theorem splitDots_letterEnvelope (n : ℕ) (v : String) : splitDots (letterEnvelope n v).toList =
      [['v', '1'], List.replicate n 'k', escapeDots v.toList] := by
  have hv : '.' ∉ ['v', '1'] := by decide
  have hkey : '.' ∉ List.replicate n 'k' := fun h => absurd (List.eq_of_mem_replicate h) (by decide)
  have he : (letterEnvelope n v).toList =
      ['v', '1'] ++ '.' :: (List.replicate n 'k' ++ '.' :: escapeDots v.toList) := by
    simp [letterEnvelope]
  rw [he, splitDots_append hv, splitDots_append hkey, splitDots_of_not_mem (dot_not_mem_escapeDots v.toList)]

def letterDecrypt (v : String) : Option String :=
  match splitDots v.toList with
  | [_, _, body] => some (String.ofList (unescapeDots body))
  | _ => none

/-- A device whose JSON texts are numbers of letters. -/
def letterDevice : Device ℕ where
  loadsLatlng := fun v => (Encodable.decode v.length).map .list
  loadsProfile := fun v => Encodable.decode v.length
  encodeLatlng := fun xs => String.ofList (List.replicate (Encodable.encode xs) '1')
  encodeProfile := fun ps => String.ofList (List.replicate (Encodable.encode ps) '1')
  protect := letterEnvelope
  decryptText := letterDecrypt
  loadsLatlng_encode := fun xs => by simp
  loadsProfile_encode := fun ps => by simp
  decrypt_protect := fun n v => by simp [letterDecrypt, splitDots_letterEnvelope, unescapeDots_escapeDots]
  protect_envelope := fun n v => by simp [isEncryptedEnvelope, splitDots_letterEnvelope]

/-- A track whose points are the letters of its polyline. -/
def letterMath : TrackMath Char where
  alignPoints := fun polyline _ => (polyline.getD "").toList
  recomputeTrackMetrics := fun points _ moving elapsed =>
    { distance := points.length
      movingTime := moving
      elapsedTime := elapsed
      totalElevationGain := 0
      averageSpeed := 0
      elevHigh := none
      elevLow := none
      startLatlng := points.head?.map String.singleton
      endLatlng := points.getLast?.map String.singleton }
  pointsToPolyline := fun points => some (String.ofList points)
  profileJson := fun _ => none
  lowResEpJson := id
  shift := fun date _ => date
  roundTime := id

def stravaRow (id : ℤ) : ActivityRow where
  id := id
  userInfoId := 0
  stravaId := some (10 * id)
  stravaUserId := some 0
  text := fun
    | .name => some "Ride"
    | .summaryPolyline => some "ab"
    | _ => none
  figure := fun _ => some 1
  originalFigure := fun _ => none
  isEdited := false
  startDate := "2024-05-01T08:00:00"
  startDateLocal := "2024-05-01T10:00:00"
  splitRootId := none
  splitParentId := none
  splitBaseName := none

/-- Their trip, with two such activities. -/
def stravaTrip : Store where
  ownerId := 0
  members := []
  lockVersion := 3
  items := [7, 8]
  rows := ⟨[stravaRow 7, stravaRow 8], by decide⟩

def stravaAnswer : FetchedActivity where
  name := "Ride"
  startDate := "2024-05-01T08:00:00"
  startDateLocal := "2024-05-01T10:00:00"
  figure := fun _ => some 1
  startLatlng := some "a"
  endLatlng := some "b"
  summaryPolyline := some "ab"
  elevationProfile := none

end TraxJourney.Activity
