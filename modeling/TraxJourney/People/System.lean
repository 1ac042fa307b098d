/-
  File:      People/System.lean
  Subject:   The requests of `api/encounters.py`, `api/people.py`, `api/groups.py` and
             `delete_project`, statement by statement, of any number of clients.

  * `Request`, `Local`, `read` -- each request up to its first write: a statement takes no lock and
    sees the last committed rows.

  Whether the caller's role in the row's trip suffices is a label, `allowed`: `assert_project_access`
  and `resolve_project` are the subject of Access.
-/
import TraxJourney.Lib.Clients
import TraxJourney.People.Rows

namespace TraxJourney.People

open Lib Access

/-! ## 1. Clients -/

inductive Request where
  | createProject (userInfoId : ℕ) (name : String)
  | createPerson (owner : ℕ) (projectName : String) (name : Option String)
  | createGroup (owner : ℕ) (projectName : String) (name : Option String)
  | createEncounter (owner : ℕ) (projectName : String) (personId groupId : Option ℕ)
      (details : EncounterDetails)
  | updateEncounter (id : ℕ) (personId groupId : Option ℕ) (details : EncounterDetails)
  | deleteEncounter (id : ℕ)
  | deletePerson (id : ℕ)
  | deleteGroup (id : ℕ)
  | setMembers (id : ℕ) (personIds : List ℕ)
  | deleteProject (owner : ℕ) (projectName : String)
  | getPerson (id : ℕ)
  | getGroup (id : ℕ)

/-- A client between two statements. -/
inductive Local where
  | idle
  | pending (p : Pending)
  | creatingEncounter (projectId : ℕ) (personId groupId : Option ℕ) (details : EncounterDetails)
  | updatingEncounter (row : Encounter) (personId groupId : Option ℕ) (details : EncounterDetails)
  | deletingEncounter (row : Encounter)
  | deletingPerson (row : Person)
  | personItems (row : Person) (encounters : List ℕ)
  | deletingGroup (row : PersonGroup)
  | groupItems (row : PersonGroup) (encounters : List ℕ)
  | groupMembers (row : PersonGroup)
  | checkingMembers (group : PersonGroup) (todo : List ℕ) (wanted : List Person)
  | currentMembers (group : PersonGroup) (wanted : List Person)
  | deletingProject (projectId : ℕ)
  | projectEncounters (projectId : ℕ)
  | projectPersons (projectId : ℕ)
  | projectGroups (projectId : ℕ)
  | personRow (row : Person)
  | personEncounters (row : Person) (encounters : List Encounter) (groupId : ℕ)
  | personGroup (row : Person) (encounters : List Encounter) (groupId : ℕ) (group : Option PersonGroup)
  | showingPerson (row : Person) (encounters : List Encounter) (group : Option PersonGroup)
  | groupRow (row : PersonGroup)
  | showingGroup (row : PersonGroup) (members : List Person)

/-- `others` is whether the trip has memories or journal entries, which are deleted before its
    encounters; `reread` is a row of `wanted` that is read again because it was dropped. -/
inductive Act where
  | start (r : Request) (allowed : Bool)
  | next (others : Bool)
  | reread (id : ℕ)
  | commit
  | close

def Db.projectNamed (db : Db) (owner : ℕ) (name : String) : Option Project :=
  db.projects.first fun r => r.userInfoId == owner && r.name == name

/-- `_require_person_in_project` and `_require_group_in_project`. -/
def Db.holds (db : Db) (projectId : ℕ) (personId groupId : Option ℕ) : Bool :=
  match personId, groupId with
  | some p, _ => (db.person p).any fun r => r.projectId == projectId
  | none, some g => (db.group g).any fun r => r.projectId == projectId
  | none, none => false

/-- `_require_exactly_one_of_person_or_group`. -/
def exactlyOne (personId groupId : Option ℕ) : Bool := personId.isNone != groupId.isNone

/-- The first statements of a request: its row, and the access check. -/
def begin (db : Db) : Request → Local
  | .createProject userInfoId name =>
    if (db.projectNamed userInfoId name).isSome then .idle
    else .pending (.createProject userInfoId name)
  | .createPerson owner projectName name =>
    match db.projectNamed owner projectName with
    | some row => .pending (.createPerson row.id name)
    | none => .idle
  | .createGroup owner projectName name =>
    match db.projectNamed owner projectName with
    | some row => .pending (.createGroup row.id name)
    | none => .idle
  | .createEncounter owner projectName personId groupId details =>
    match db.projectNamed owner projectName with
    | some row =>
      if exactlyOne personId groupId then .creatingEncounter row.id personId groupId details
      else .idle
    | none => .idle
  | .updateEncounter id personId groupId details =>
    match db.encounter id with
    | some row =>
      if exactlyOne personId groupId then .updatingEncounter row personId groupId details
      else .idle
    | none => .idle
  | .deleteEncounter id =>
    match db.encounter id with
    | some row => .deletingEncounter row
    | none => .idle
  | .deletePerson id =>
    match db.person id with
    | some row => .deletingPerson row
    | none => .idle
  | .deleteGroup id =>
    match db.group id with
    | some row => .deletingGroup row
    | none => .idle
  | .setMembers id personIds =>
    match db.group id with
    | some group => .checkingMembers group personIds.dedup []
    | none => .idle
  | .deleteProject owner projectName =>
    match db.projectNamed owner projectName with
    | some row => .deletingProject row.id
    | none => .idle
  | .getPerson id =>
    match db.person id with
    | some row => .personRow row
    | none => .idle
  | .getGroup id =>
    match db.group id with
    | some row => .groupRow row
    | none => .idle

/-- The next reading statement. -/
def proceed (db : Db) (others : Bool) : Local → Option Local
  | .creatingEncounter projectId personId groupId details => some <|
      if db.holds projectId personId groupId
      then .pending (.createEncounter projectId personId groupId details) else .idle
  | .updatingEncounter row personId groupId details => some <|
      if db.holds row.projectId personId groupId
      then .pending (.updateEncounter row personId groupId details) else .idle
  | .deletingEncounter row => some <| .pending <| .deleteEncounter row <|
      (db.items.first fun i => i.encounterId == some row.id).map ProjectItem.id
  | .deletingPerson row =>
    let encounters := (db.encounters.rows.filter fun e => e.personId == some row.id).map
      Encounter.id
    some <| if encounters = [] then .pending (.deletePerson row [] [])
      else .personItems row encounters
  | .personItems row encounters => some <| .pending (.deletePerson row encounters (db.itemsNaming encounters))
  | .deletingGroup row =>
    let encounters := (db.encounters.rows.filter fun e => e.groupId == some row.id).map
      Encounter.id
    some <| if encounters = [] then .groupMembers row else .groupItems row encounters
  | .groupItems row encounters =>
    some <| .pending (.deleteGroup row encounters (db.itemsNaming encounters) none)
  | .groupMembers row => some <| .pending (.deleteGroup row [] [] (some (db.membersOf row.id)))
  | .checkingMembers group [] wanted => some (.currentMembers group wanted)
  | .checkingMembers group (id :: todo) wanted => some <|
      match db.person id with
      | some p =>
        if p.projectId = group.projectId then .checkingMembers group todo (wanted ++ [p])
        else .idle
      | none => .idle
  | .currentMembers group wanted => some <| .pending (.setMembers group wanted (db.membersOf group.id))
  | .deletingProject projectId =>
    some <| if db.itemsOf projectId ≠ [] ∨ others
      then .pending (.deleteProject projectId (db.itemsOf projectId) none none none)
      else .projectEncounters projectId
  | .projectEncounters projectId =>
    some <| if db.encountersOf projectId ≠ []
      then .pending (.deleteProject projectId [] (some (db.encountersOf projectId)) none none)
      else .projectPersons projectId
  | .projectPersons projectId =>
    some <| if db.personsOf projectId ≠ []
      then .pending (.deleteProject projectId [] (some []) (some (db.personsOf projectId)) none)
      else .projectGroups projectId
  | .projectGroups projectId =>
    some <| .pending (.deleteProject projectId [] (some []) (some []) (some (db.groupsOf projectId)))
  | .personRow row =>
    let encounters := db.encounters.rows.filter fun e => e.personId == some row.id
    some <| match row.groupId with
      | none => .showingPerson row encounters none
      | some groupId => .personEncounters row encounters groupId
  | .personEncounters row encounters groupId => some (.personGroup row encounters groupId (db.group groupId))
  | .personGroup row encounters groupId group =>
    let inherited := db.encounters.rows.filter fun e => e.groupId == some groupId
    some (.showingPerson row (encounters ++ inherited) group)
  | .groupRow row => some (.showingGroup row (db.persons.rows.filter fun p => p.groupId == some row.id))
  | _ => none

/-- The reading statements; `none` where the client has no such statement. -/
def read (db : Db) : Local → Act → Option Local
  | .idle, .start r allowed => some (if allowed then begin db r else .idle)
  | l, .next others => proceed db others l
  | .pending (.setMembers group wanted members), .reread id =>
    (db.person id).map fun p =>
      .pending (.setMembers group (wanted.map fun q => if q.id = id then p else q) members)
  | .showingPerson _ _ _, .close | .showingGroup _ _, .close => some .idle
  | _, _ => none

/-- One statement of a client. -/
def step (l : Local) (a : Act) (db : Db) : Option (Local × Db) :=
  match l, a with
  | .pending p, .commit => some (.idle, (commit db p).getD db)
  | _, .commit => none
  | l, a => (read db l a).map fun l' => (l', db)

/-! ## 2. The steps, said once -/

theorem step_cases {l l' : Local} {a : Act} {db db' : Db} (h : step l a db = some (l', db')) :
    (read db l a = some l' ∧ db' = db) ∨
    (∃ p, l = .pending p ∧ a = .commit ∧ l' = .idle ∧
      (commit db p = some db' ∨ commit db p = none ∧ db' = db)) := by
  unfold step at h
  split at h
  · rename_i p
    cases hc : commit db p with
    | none =>
      rw [hc] at h
      cases h
      exact .inr ⟨p, rfl, rfl, rfl, .inr ⟨hc, rfl⟩⟩
    | some db₁ =>
      rw [hc] at h
      cases h
      exact .inr ⟨p, rfl, rfl, rfl, .inl hc⟩
  · cases h
  · obtain ⟨l₁, hr, he⟩ := Option.map_eq_some_iff.mp h
    cases he
    exact .inl ⟨hr, rfl⟩

end TraxJourney.People
