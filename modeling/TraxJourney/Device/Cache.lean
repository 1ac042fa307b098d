/-
  File:      Device/Cache.lean
  Subject:   The trip cache of the device: `ProjectDataCache` from
             `lib/src/projects/project_data_cache.dart` and `cacheStoreWrite` from
             `project_cache_store_native.dart`, and the operations that overlap at its awaits.

  * `Cache` -- the entries in memory, the rows on disk, and the disk writes that were issued and
    have not inserted their row yet.

  A payload stands for its JSON: it keeps the key and the lock version that the cache held when
  its request began. `recorded` and `recordings` are history that no step reads: the version that
  `onMetaFetched` recorded last, and how often another one was recorded. The `meta` payload, which
  no check looks at, and the schema version, which is one constant, are left out.
-/
import TraxJourney.Lib.Clients
import Mathlib.Data.Int.Notation

namespace TraxJourney.Device

open Lib

/-! ## 1. Entries and rows -/

structure ProjectRef where
  ownerId : Option ℤ
  name : String

/-- `'${_currentUserId ?? 0}:${ref.ownerId ?? 0}:${ref.name}'`. -/
structure Key where
  userId : ℤ
  ownerId : ℤ
  name : String
deriving DecidableEq

/-- The payloads that are dropped with their version. -/
inductive Heavy where
  | lowResGeo
  | fullGeo
  | fullDetails
deriving DecidableEq

structure Payload where
  key : Key
  held : ℤ
deriving DecidableEq

/-- `_Entry`, and a row of `project_cache`. -/
structure Entry where
  lockVersion : ℤ
  heavy : Heavy → Option Payload

def Entry.fresh (lockVersion : ℤ) : Entry := ⟨lockVersion, fun _ => none⟩

/-- The row that `cacheStoreWrite` is given: a column that is named is replaced, also by null. -/
structure DiskWrite where
  lockVersion : ℤ
  columns : Heavy → Option (Option Payload)

/-- The row that is inserted, over the one that was read. -/
def DiskWrite.merge (row : DiskWrite) (prev : Option Entry) : Entry where
  lockVersion := row.lockVersion
  heavy field :=
    match row.columns field with
    | some value => value
    | none => prev.bind fun r => r.heavy field

/-- `cacheStoreWrite` under way: what it has read, once it has. -/
structure Task where
  row : DiskWrite
  prev : Option (Option Entry)

/-- The singleton. The disk writes of a key are kept in the order they were issued. -/
structure Cache where
  currentUserId : Option ℤ
  scope : ℕ
  mem : Key → Option Entry
  disk : Key → Option Entry
  tasks : Key → List Task
  recorded : Key → Option ℤ
  recordings : Key → ℕ

def Cache.start : Cache := ⟨none, 0, fun _ => none, fun _ => none, fun _ => [], fun _ => none, fun _ => 0⟩

/-! ## 2. What runs between two awaits -/

variable (s : Cache)

def Cache.key (ref : ProjectRef) : Key := ⟨s.currentUserId.getD 0, ref.ownerId.getD 0, ref.name⟩

def Cache.setCurrentUser (userId : Option ℤ) : Cache :=
  if s.currentUserId = userId then s
  else { s with currentUserId := userId, scope := s.scope + 1, mem := fun _ => none }

def Cache.stale (scope : ℕ) : Prop := scope ≠ s.scope

instance (scope : ℕ) : Decidable (s.stale scope) := inferInstanceAs (Decidable (_ ≠ _))

def Cache.lockVersionOf (ref : ProjectRef) : Option ℤ := (s.mem (s.key ref)).map (·.lockVersion)

def Cache.outdated (key : Key) (lockVersion : Option ℤ) : Prop :=
  lockVersion ≠ none ∧ (s.mem key).map (·.lockVersion) ≠ lockVersion

instance (key : Key) (lockVersion : Option ℤ) : Decidable (s.outdated key lockVersion) :=
  inferInstanceAs (Decidable (_ ∧ _))

def Cache.storeWrite (key : Key) (row : DiskWrite) : Cache :=
  { s with tasks := Function.update s.tasks key (s.tasks key ++ [⟨row, none⟩]) }

def Cache.putMem (key : Key) (entry : Entry) : Cache :=
  { s with mem := Function.update s.mem key (some entry) }

/-- The history of `onMetaFetched`. -/
def Cache.record (key : Key) (lockVersion : ℤ) : Cache :=
  if s.recorded key = some lockVersion then s
  else { s with
    recorded := Function.update s.recorded key (some lockVersion)
    recordings := Function.update s.recordings key (s.recordings key + 1) }

/-- `lockVersion` is `meta['lock_version']`, null from an older server. -/
def Cache.onMetaFetched (ref : ProjectRef) (lockVersion : Option ℤ) (scope : ℕ) : Cache :=
  if s.stale scope then s
  else match lockVersion with
    | none => s
    | some lockVersion =>
      let key := s.key ref
      match (s.mem key).filter fun prev => prev.lockVersion = lockVersion with
      | some prev => ((s.record key lockVersion).putMem key prev).storeWrite key ⟨lockVersion, fun _ => none⟩
      | none => ((s.record key lockVersion).putMem key (.fresh lockVersion)).storeWrite key
          ⟨lockVersion, fun _ => some none⟩

def Entry.withHeavy (e : Entry) (field : Heavy) (data : Payload) : Entry :=
  { e with heavy := Function.update e.heavy field (some data) }

def Cache.writeHeavy (ref : ProjectRef) (field : Heavy) (data : Payload) (scope : ℕ)
    (lockVersion : Option ℤ) : Cache :=
  if s.stale scope then s
  else if s.outdated (s.key ref) lockVersion then s
  else
    let key := s.key ref
    let entry := (s.mem key).getD (.fresh 0)
    (s.putMem key (entry.withHeavy field data)).storeWrite key
      ⟨entry.lockVersion, Function.update (fun _ => none) field (some (some data))⟩

def Cache.promoteFullGeo (ref : ProjectRef) (data : Payload) (scope : ℕ) (lockVersion : Option ℤ) : Cache :=
  if s.stale scope then s
  else if s.outdated (s.key ref) lockVersion then s
  else s.putMem (s.key ref) (((s.mem (s.key ref)).getD (.fresh 0)).withHeavy .fullGeo data)

def Cache.seedFullGeoToDisk (ref : ProjectRef) (data : Payload) (lockVersion : ℤ) : Cache :=
  match s.mem (s.key ref) with
  | none => s
  | some entry =>
    if entry.lockVersion ≠ lockVersion then s
    else s.storeWrite (s.key ref)
      ⟨entry.lockVersion, Function.update (fun _ => none) .fullGeo (some (some data))⟩

/-- The entry `_readDisk` makes of a row: the full geometry is not decoded. -/
def Entry.ofRow (row : Entry) : Entry := { row with heavy := Function.update row.heavy .fullGeo none }

/-- The end of `_readDisk`, once the row is decoded. -/
def Cache.readDisk (key : Key) (scope : ℕ) (row : Option Entry) : Cache × Option Entry :=
  match row with
  | none => (s, none)
  | some row => if s.stale scope then (s, none) else (s.putMem key row.ofRow, some row.ofRow)

/-- One step of the `n`th write of a key: it reads the row, and later inserts the merged one. -/
def Cache.diskStep (key : Key) (n : ℕ) : Option Cache :=
  match (s.tasks key)[n]? with
  | none => none
  | some task =>
    match task.prev with
    | none => some { s with
        tasks := Function.update s.tasks key ((s.tasks key).set n { task with prev := some (s.disk key) }) }
    | some prev => some { s with
        disk := Function.update s.disk key (some (task.row.merge prev))
        tasks := Function.update s.tasks key ((s.tasks key).eraseIdx n) }

/-! ## 3. Operations that overlap -/

/-- An operation at an await. A read carries the version recorded when it began, and the count; the
    promotion of the full geometry (`readCachedGeo`), the row that its bytes are of. -/
inductive Await where
  | idle
  | opened (ref : ProjectRef) (scope : ℕ)
  | requested (ref : ProjectRef) (scope : ℕ) (key : Key) (lockVersion : ℤ)
  | promoting (ref : ProjectRef) (scope : ℕ) (key : Key) (lockVersion : ℤ) (row : Option Entry)
  | reading (key : Key) (field : Heavy) (scope : ℕ) (recorded : Option ℤ) (recordings : ℕ)
  | decoding (key : Key) (field : Heavy) (scope : ℕ) (recorded : Option ℤ) (recordings : ℕ)
      (row : Option Entry)
  | returned (key : Key) (recorded : Option ℤ) (undisturbed : Bool) (result : Option Payload)

/-- What an operation does next. -/
inductive Action where
  | setsUser (userId : Option ℤ)
  | opens (ref : ProjectRef)
  | metaLands (lockVersion : Option ℤ)
  | requests
  | writeLands (field : Heavy)
  | readsBytes
  | promotionLands
  | seedLands
  | reads (ref : ProjectRef) (field : Heavy)
  | queries
  | resumes
  | ends
  | diskSteps (key : Key) (n : ℕ)

/-- The next step of an operation, up to its next await. -/
def act (op : Await) (a : Action) (s : Cache) : Option (Await × Cache) :=
  match a, op with
  | .diskSteps key n, op => (s.diskStep key n).map fun s' => (op, s')
  | .setsUser userId, .idle => some (.idle, s.setCurrentUser userId)
  | .opens ref, .idle => some (.opened ref s.scope, s)
  | .metaLands lockVersion, .opened ref scope => some (.idle, s.onMetaFetched ref lockVersion scope)
  | .requests, .opened ref scope =>
    (s.lockVersionOf ref).map fun lockVersion => (.requested ref scope (s.key ref) lockVersion, s)
  | .writeLands field, .requested ref scope key lockVersion =>
    some (.idle, s.writeHeavy ref field ⟨key, lockVersion⟩ scope (some lockVersion))
  -- `readFullGeoBytes`, and later, once its bytes are decoded, `promoteFullGeo`
  | .readsBytes, .requested ref scope key lockVersion =>
    some (.promoting ref scope key lockVersion (s.disk key), s)
  | .promotionLands, .promoting ref scope _ lockVersion row =>
    some (.idle, ((row.bind fun r => r.heavy .fullGeo).map fun geo =>
      s.promoteFullGeo ref geo scope (some lockVersion)).getD s)
  | .seedLands, .requested ref _ key lockVersion =>
    some (.idle, s.seedFullGeoToDisk ref ⟨key, lockVersion⟩ lockVersion)
  | .reads ref field, .idle =>
    let key := s.key ref
    match s.mem key with
    | some entry => some (.returned key (s.recorded key) true (entry.heavy field), s)
    | none => some (.reading key field s.scope (s.recorded key) (s.recordings key), s)
  | .queries, .reading key field scope recorded recordings =>
    some (.decoding key field scope recorded recordings (s.disk key), s)
  | .resumes, .decoding key field scope recorded recordings row =>
    let r := s.readDisk key scope row
    some (.returned key recorded (r.1.recordings key == recordings)
      (r.2.bind fun entry => entry.heavy field), r.1)
  | .ends, .returned _ _ _ _ => some (.idle, s)
  | _, _ => none

end TraxJourney.Device
