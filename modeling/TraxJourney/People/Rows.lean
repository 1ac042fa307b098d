/-
  File:      People/Rows.lean
  Subject:   People, groups and encounters of the trips (`DBPerson`, `DBPersonGroup`,
             `DBEncounter`, `models/project_db.py`), and the transactions of `api/encounters.py`,
             `api/people.py`, `api/groups.py` and `delete_project` that write them.

  * `Db` -- the five tables; an id is one above the largest in its table, nothing enforces a
    foreign key, and an encounter may name any number of persons or groups.

  The other columns of a person and a group, avatars, the positions of items and the lock version
  are left out: they decide nothing here. A place looked up from the day's activities comes with
  the request.
-/
import TraxJourney.Access.ProjectAccess

namespace TraxJourney.People

open Lib Access

/-! ## 1. Tables -/

structure Person where
  id : ℕ
  projectId : ℕ
  name : Option String
  groupId : Option ℕ

structure PersonGroup where
  id : ℕ
  projectId : ℕ
  name : Option String

/-- The columns of an encounter that are no reference. -/
structure EncounterDetails where
  date : String
  time : Option String
  description : Option String
  geoMode : String
  lat : Option Rat
  lon : Option Rat
  deriving DecidableEq

/-- The details written back by a session that loaded `loaded` and made them `new`. -/
def EncounterDetails.flush (loaded new cur : EncounterDetails) : EncounterDetails where
  date := pick loaded.date new.date cur.date
  time := pick loaded.time new.time cur.time
  description := pick loaded.description new.description cur.description
  geoMode := pick loaded.geoMode new.geoMode cur.geoMode
  lat := pick loaded.lat new.lat cur.lat
  lon := pick loaded.lon new.lon cur.lon

structure Encounter where
  id : ℕ
  projectId : ℕ
  personId : Option ℕ
  groupId : Option ℕ
  details : EncounterDetails
  deriving DecidableEq

structure ProjectItem where
  id : ℕ
  projectId : ℕ
  encounterId : Option ℕ

structure Db where
  projects : Table Project Project.id
  persons : Table Person Person.id
  groups : Table PersonGroup PersonGroup.id
  encounters : Table Encounter Encounter.id
  items : Table ProjectItem ProjectItem.id

def Db.empty : Db := ⟨.empty, .empty, .empty, .empty, .empty⟩

def Db.person (db : Db) (id : ℕ) : Option Person := db.persons.first fun r => r.id == id
def Db.group (db : Db) (id : ℕ) : Option PersonGroup := db.groups.first fun r => r.id == id
def Db.encounter (db : Db) (id : ℕ) : Option Encounter := db.encounters.first fun r => r.id == id

/-! ## 2. Deletions -/

/-- What a deletion writes: the rows that it deletes, by id, and the persons that it ungroups. -/
structure Deletion where
  projects : List ℕ
  persons : List ℕ
  groups : List ℕ
  encounters : List ℕ
  items : List ℕ
  ungrouped : List ℕ

def regrouped (persons : Table Person Person.id) (ids : List ℕ) (group : Option ℕ) : Table Person Person.id :=
  persons.update (fun p => ids.contains p.id) (fun p => { p with groupId := group }) fun _ => rfl

/-- `UPDATE person SET group_id = … WHERE id = …`, for each of the ids; `none` is the error where
    one of them is gone. -/
def Db.setGroup (db : Db) (ids : List ℕ) (group : Option ℕ) : Option Db :=
  if ids.all fun id => (db.person id).isSome then
    some { db with persons := regrouped db.persons ids group }
  else none

def Db.deleteRows (db : Db) (d : Deletion) : Option Db := do
  let db ← db.setGroup d.ungrouped none
  return {
    projects := db.projects.delete fun r => d.projects.contains r.id
    persons := db.persons.delete fun r => d.persons.contains r.id
    groups := db.groups.delete fun r => d.groups.contains r.id
    encounters := db.encounters.delete fun r => d.encounters.contains r.id
    items := db.items.delete fun r => d.items.contains r.id }

/-! ## 3. Transactions -/

/-- A transaction with what it has read. A list that is `none` is read once the lock is held: a
    query flushes what was deleted before it. -/
inductive Pending where
  | createProject (userInfoId : ℕ) (name : String)
  | createPerson (projectId : ℕ) (name : Option String)
  | createGroup (projectId : ℕ) (name : Option String)
  | createEncounter (projectId : ℕ) (personId groupId : Option ℕ) (details : EncounterDetails)
  | updateEncounter (row : Encounter) (personId groupId : Option ℕ) (details : EncounterDetails)
  | deleteEncounter (row : Encounter) (item : Option ℕ)
  | deletePerson (row : Person) (encounters items : List ℕ)
  | deleteGroup (row : PersonGroup) (encounters items : List ℕ) (members : Option (List ℕ))
  | setMembers (group : PersonGroup) (wanted : List Person) (members : List ℕ)
  | deleteProject (projectId : ℕ) (items : List ℕ) (encounters persons groups : Option (List ℕ))

/-- The ids that a query of one trip's rows returns. -/
def Db.itemsOf (db : Db) (projectId : ℕ) : List ℕ :=
  (db.items.rows.filter fun r => r.projectId == projectId).map ProjectItem.id

def Db.encountersOf (db : Db) (projectId : ℕ) : List ℕ :=
  (db.encounters.rows.filter fun r => r.projectId == projectId).map Encounter.id

def Db.personsOf (db : Db) (projectId : ℕ) : List ℕ :=
  (db.persons.rows.filter fun r => r.projectId == projectId).map Person.id

def Db.groupsOf (db : Db) (projectId : ℕ) : List ℕ :=
  (db.groups.rows.filter fun r => r.projectId == projectId).map PersonGroup.id

def Db.membersOf (db : Db) (groupId : ℕ) : List ℕ :=
  (db.persons.rows.filter fun r => r.groupId == some groupId).map Person.id

/-- The timeline items of some encounters. -/
def Db.itemsNaming (db : Db) (encounters : List ℕ) : List ℕ :=
  (db.items.rows.filter fun r => r.encounterId.any encounters.contains).map ProjectItem.id

/-- The rows of a deletion; `none` for the other transactions. -/
def Pending.deletion? (db : Db) : Pending → Option Deletion
  | .deleteEncounter row item => some ⟨[], [], [], [row.id], item.toList, []⟩
  | .deletePerson row encounters items => some ⟨[], [row.id], [], encounters, items, []⟩
  | .deleteGroup row encounters items members =>
    some ⟨[], [], [row.id], encounters, items, members.getD (db.membersOf row.id)⟩
  | .deleteProject projectId items encounters persons groups =>
    some ⟨[projectId], persons.getD (db.personsOf projectId), groups.getD (db.groupsOf projectId),
      encounters.getD (db.encountersOf projectId), items, []⟩
  | _ => none

/-- `create_encounter`, from its flush on. -/
def commitCreateEncounter (db : Db) (projectId : ℕ) (personId groupId : Option ℕ)
    (details : EncounterDetails) : Option Db := do
  let id := db.encounters.nextId
  let encounters ← db.encounters.insert ⟨id, projectId, personId, groupId, details⟩
  let items ← db.items.insert ⟨db.items.nextId, projectId, some id⟩
  return { db with encounters := encounters, items := items }

/-- The encounter `row.id`, with the columns written that differ from the row as it was read. -/
def rewritten (encounters : Table Encounter Encounter.id) (row : Encounter)
    (personId groupId : Option ℕ) (details : EncounterDetails) : Table Encounter Encounter.id :=
  encounters.update (fun r => r.id == row.id)
    (fun r => { r with
      personId := pick row.personId personId r.personId
      groupId := pick row.groupId groupId r.groupId
      details := row.details.flush details r.details }) fun _ => rfl

/-- `update_encounter`; `none` is the error where the row is gone. -/
def commitUpdateEncounter (db : Db) (row : Encounter) (personId groupId : Option ℕ)
    (details : EncounterDetails) : Option Db :=
  if (personId, groupId, details) = (row.personId, row.groupId, row.details) then some db
  else if (db.encounter row.id).isSome then
    some { db with encounters := rewritten db.encounters row personId groupId details }
  else none

/-- `set_members`: who is no longer wanted, then who is wanted and was not a member. -/
def commitSetMembers (db : Db) (group : PersonGroup) (wanted : List Person)
    (members : List ℕ) : Option Db := do
  let db ← db.setGroup (members.filter fun id => !(wanted.map Person.id).contains id) none
  db.setGroup ((wanted.filter fun p => p.groupId != some group.id).map Person.id) (some group.id)

def commit (db : Db) (p : Pending) : Option Db :=
  match p.deletion? db with
  | some d => db.deleteRows d
  | none =>
    match p with
    | .createProject userInfoId name => do
        let projects ← db.projects.insert ⟨db.projects.nextId, userInfoId, name⟩
        return { db with projects := projects }
    | .createPerson projectId name => do
        let persons ← db.persons.insert ⟨db.persons.nextId, projectId, name, none⟩
        return { db with persons := persons }
    | .createGroup projectId name => do
        let groups ← db.groups.insert ⟨db.groups.nextId, projectId, name⟩
        return { db with groups := groups }
    | .createEncounter projectId personId groupId details =>
      commitCreateEncounter db projectId personId groupId details
    | .updateEncounter row personId groupId details => commitUpdateEncounter db row personId groupId details
    | .setMembers group wanted members => commitSetMembers db group wanted members
    | _ => none

end TraxJourney.People
