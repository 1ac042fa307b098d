/-
  File:      People/Together.lean
  Subject:   People and encounters stay in their trip.

  * **`people_stay_in_trip`** -- references stay within a trip in every run whose transactions find what
    they rely on, and then the readers show no row of another trip.
-/
import TraxJourney.People.System

namespace TraxJourney.People

open Lib Access

/-! ## 1. References -/

/-- Exactly one person or group, of this trip. -/
def Db.Names (db : Db) (projectId : ℕ) (personId groupId : Option ℕ) : Prop :=
  (∃ p ∈ db.persons, personId = some p.id ∧ groupId = none ∧ p.projectId = projectId) ∨
    (∃ g ∈ db.groups, personId = none ∧ groupId = some g.id ∧ g.projectId = projectId)

/-- Every reference names a row of the same trip. -/
structure Together (db : Db) : Prop where
  encounter : ∀ e ∈ db.encounters, db.Names e.projectId e.personId e.groupId
  person : ∀ p ∈ db.persons, ∀ groupId, p.groupId = some groupId →
    ∃ g ∈ db.groups, g.id = groupId ∧ g.projectId = p.projectId
  item : ∀ i ∈ db.items, ∀ encounterId, i.encounterId = some encounterId →
    ∃ e ∈ db.encounters, e.id = encounterId ∧ e.projectId = i.projectId

theorem Together.empty : Together .empty where
  encounter := fun _ he => absurd he Table.not_mem_empty
  person := fun _ hp => absurd hp Table.not_mem_empty
  item := fun _ hi => absurd hi Table.not_mem_empty

variable {db db' : Db} {personId groupId : Option ℕ}

theorem Db.Names.mono {projectId : ℕ} (h : db.Names projectId personId groupId)
    (hp : ∀ p ∈ db.persons, p ∈ db'.persons) (hg : ∀ g ∈ db.groups, g ∈ db'.groups) :
    db'.Names projectId personId groupId := by
  rcases h with ⟨p, hmem, h⟩ | ⟨g, hmem, h⟩
  · exact .inl ⟨p, hp p hmem, h⟩
  · exact .inr ⟨g, hg g hmem, h⟩

/-! ## 2. What a transaction relies on -/

/-- Whatever names a row that the deletion deletes is deleted with it, or ungrouped. -/
structure Deletion.Closed (db : Db) (d : Deletion) : Prop where
  item : ∀ i ∈ db.items, ∀ id ∈ d.encounters, i.encounterId = some id → i.id ∈ d.items
  ofPerson : ∀ e ∈ db.encounters, ∀ id ∈ d.persons, e.personId = some id → e.id ∈ d.encounters
  ofGroup : ∀ e ∈ db.encounters, ∀ id ∈ d.groups, e.groupId = some id → e.id ∈ d.encounters
  member : ∀ p ∈ db.persons, ∀ id ∈ d.groups, p.groupId = some id → p.id ∈ d.persons ∨ p.id ∈ d.ungrouped

/-- An update that changes what an encounter names: the column that it leaves is as it was read,
    and what it names is in the encounter's trip. -/
def UpdateRelies (db : Db) (row : Encounter) (personId groupId : Option ℕ) : Prop :=
  (personId, groupId) ≠ (row.personId, row.groupId) → ∀ cur ∈ db.encounters, cur.id = row.id →
    (personId = row.personId → cur.personId = row.personId) ∧
    (groupId = row.groupId → cur.groupId = row.groupId) ∧ db.Names cur.projectId personId groupId

/-- A new member is in the group's trip. -/
def MembersRely (db : Db) (group : PersonGroup) (wanted : List Person) : Prop :=
  ∀ q ∈ wanted, q.groupId ≠ some group.id → ∀ p ∈ db.persons, p.id = q.id →
    ∃ g ∈ db.groups, g.id = group.id ∧ g.projectId = p.projectId

/-- What the transaction takes for granted at its first write. -/
def Relies (db : Db) : Pending → Prop
  | .createEncounter projectId personId groupId _ => db.Names projectId personId groupId
  | .updateEncounter row personId groupId _ => UpdateRelies db row personId groupId
  | .setMembers group wanted _ => MembersRely db group wanted
  | p => ∀ d, p.deletion? db = some d → d.Closed db

/-! ## 3. A transaction -/

variable {ids : List ℕ} {group : Option ℕ}

theorem setGroup_some (h : db.setGroup ids group = some db') :
    db' = { db with persons := regrouped db.persons ids group } := by
  unfold Db.setGroup at h
  split at h
  · exact (Option.some.inj h).symm
  · cases h

variable {persons : Table Person Person.id}

theorem mem_regrouped {p' : Person} (h : p' ∈ regrouped persons ids group) :
    ∃ p ∈ persons, p'.id = p.id ∧ p'.projectId = p.projectId ∧
      (p.id ∈ ids ∧ p'.groupId = group ∨ p.id ∉ ids ∧ p'.groupId = p.groupId) := by
  obtain ⟨p, hp, rfl⟩ := (Table.mem_update _).mp h
  by_cases hid : p.id ∈ ids
  · exact ⟨p, hp, by simp [hid]⟩
  · exact ⟨p, hp, by simp [hid]⟩

theorem regrouped_mem {p : Person} (hp : p ∈ persons) (ids : List ℕ) (group : Option ℕ) :
    ∃ p' ∈ regrouped persons ids group, p'.id = p.id ∧ p'.projectId = p.projectId := by
  refine ⟨_, (Table.mem_update _).mpr ⟨p, hp, rfl⟩, ?_⟩
  split <;> exact ⟨rfl, rfl⟩

theorem setGroup_together (hT : Together db) (h : db.setGroup ids group = some db')
    (hgroup : ∀ groupId, group = some groupId → ∀ p ∈ db.persons, p.id ∈ ids →
      ∃ g ∈ db.groups, g.id = groupId ∧ g.projectId = p.projectId) : Together db' := by
  obtain rfl := setGroup_some h
  refine ⟨fun e he => ?_, fun p' hp' groupId hg => ?_, hT.item⟩
  · rcases hT.encounter e he with ⟨p, hp, hep, heg, hproject⟩ | hgroup
    · obtain ⟨p', hp', hid, hproject'⟩ := regrouped_mem hp ids group
      exact .inl ⟨p', hp', hid ▸ hep, heg, hproject'.trans hproject⟩
    · exact .inr hgroup
  · obtain ⟨p, hp, -, hproject, ⟨hmem, hgroup'⟩ | ⟨-, hgroup'⟩⟩ := mem_regrouped hp'
    · rw [hproject]
      exact hgroup groupId (hgroup' ▸ hg) p hp hmem
    · rw [hproject]
      exact hT.person p hp groupId (hgroup' ▸ hg)

theorem deleteRows_together {d : Deletion} (hT : Together db) (hd : d.Closed db)
    (h : db.deleteRows d = some db') : Together db' := by
  obtain ⟨db₁, hset, h⟩ := Option.bind_eq_some_iff.mp h
  have hT₁ : Together db₁ := setGroup_together hT hset fun _ hg => nomatch hg
  obtain rfl := setGroup_some hset
  cases h
  have kept {ids : List ℕ} {id : ℕ} (hnot : id ∉ ids) : ids.contains id = false := by simpa using hnot
  refine ⟨fun e he => ?_, fun p' hp' groupId hg => ?_, fun i hi id hid => ?_⟩
  · obtain ⟨he, hkept⟩ := Table.mem_delete.mp he
    have hnot : e.id ∉ d.encounters := by simpa using hkept
    rcases hT₁.encounter e he with ⟨p, hp, hep, h⟩ | ⟨g, hg, hep, heg, h⟩
    · refine .inl ⟨p, Table.mem_delete.mpr ⟨hp, kept fun hmem => hnot ?_⟩, hep, h⟩
      exact hd.ofPerson e he p.id hmem hep
    · refine .inr ⟨g, Table.mem_delete.mpr ⟨hg, kept fun hmem => hnot ?_⟩, hep, heg, h⟩
      exact hd.ofGroup e he g.id hmem heg
  · obtain ⟨hp', hkept⟩ := Table.mem_delete.mp hp'
    have hnot : p'.id ∉ d.persons := by simpa using hkept
    obtain ⟨g, hgmem, hgid, hproject⟩ := hT₁.person p' hp' groupId hg
    refine ⟨g, Table.mem_delete.mpr ⟨hgmem, kept fun hmem => ?_⟩, hgid, hproject⟩
    obtain ⟨p, hp, hid, -, ⟨-, hnone⟩ | ⟨hungrouped, hsame⟩⟩ := mem_regrouped hp'
    · cases hnone.symm.trans hg
    · rcases hd.member p hp g.id hmem (by rw [← hsame, hg, hgid]) with hdel | hun
      · exact hnot (hid ▸ hdel)
      · exact hungrouped hun
  · obtain ⟨hi, hkept⟩ := Table.mem_delete.mp hi
    have hnot : i.id ∉ d.items := by simpa using hkept
    obtain ⟨e, he, heid, hproject⟩ := hT₁.item i hi id hid
    refine ⟨e, Table.mem_delete.mpr ⟨he, kept fun hmem => hnot ?_⟩, heid, hproject⟩
    exact hd.item i hi e.id hmem (heid ▸ hid)

variable {details : EncounterDetails}

theorem createEncounter_together {projectId : ℕ} (hT : Together db)
    (hnames : db.Names projectId personId groupId)
    (h : commitCreateEncounter db projectId personId groupId details = some db') :
    Together db' := by
  obtain ⟨encounters, hencounters, h⟩ := Option.bind_eq_some_iff.mp h
  obtain ⟨items, hitems, h⟩ := Option.bind_eq_some_iff.mp h
  cases h
  refine ⟨fun e he => ?_, hT.person, fun i hi id hid => ?_⟩
  · rcases (Table.mem_insert hencounters).mp he with he | rfl
    · exact hT.encounter e he
    · exact hnames
  · rcases (Table.mem_insert hitems).mp hi with hi | rfl
    · obtain ⟨e, he, h⟩ := hT.item i hi id hid
      exact ⟨e, (Table.mem_insert hencounters).mpr (.inl he), h⟩
    · obtain rfl := Option.some.inj hid
      exact ⟨_, (Table.mem_insert hencounters).mpr (.inr rfl), rfl, rfl⟩

variable {encounters : Table Encounter Encounter.id} {row : Encounter}

theorem mem_rewritten {e' : Encounter} (h : e' ∈ rewritten encounters row personId groupId details) :
    ∃ e ∈ encounters, e'.id = e.id ∧ e'.projectId = e.projectId ∧
      (e.id = row.id ∧ e'.personId = pick row.personId personId e.personId ∧
        e'.groupId = pick row.groupId groupId e.groupId ∨
      e.id ≠ row.id ∧ e' = e) := by
  obtain ⟨e, he, rfl⟩ := (Table.mem_update _).mp h
  by_cases hid : e.id = row.id
  · exact ⟨e, he, by simp [hid]⟩
  · exact ⟨e, he, by simp [hid]⟩

variable {e : Encounter}

theorem rewritten_mem (he : e ∈ encounters) (row : Encounter) (personId groupId : Option ℕ)
    (details : EncounterDetails) :
    ∃ e' ∈ rewritten encounters row personId groupId details, e'.id = e.id ∧ e'.projectId = e.projectId := by
  refine ⟨_, (Table.mem_update _).mpr ⟨e, he, rfl⟩, ?_⟩
  split <;> exact ⟨rfl, rfl⟩

theorem update_names (hT : Together db) (hrelies : UpdateRelies db row personId groupId)
    (he : e ∈ db.encounters)
    (hid : e.id = row.id) : db.Names e.projectId (pick row.personId personId e.personId)
      (pick row.groupId groupId e.groupId) := by
  by_cases hsame : (personId, groupId) = (row.personId, row.groupId)
  · obtain ⟨rfl, rfl⟩ := Prod.mk.inj hsame
    rw [pick_self, pick_self]
    exact hT.encounter e he
  · obtain ⟨hp, hg, hnames⟩ := hrelies hsame e he hid
    have hperson : pick row.personId personId e.personId = personId := by
      rcases pick_cases row.personId personId e.personId with ⟨h, heq⟩ | ⟨h, -⟩
      · rw [h, hp heq, heq]
      · exact h
    have hgroup : pick row.groupId groupId e.groupId = groupId := by
      rcases pick_cases row.groupId groupId e.groupId with ⟨h, heq⟩ | ⟨h, -⟩
      · rw [h, hg heq, heq]
      · exact h
    rw [hperson, hgroup]
    exact hnames

theorem updateEncounter_together (hT : Together db) (hrelies : UpdateRelies db row personId groupId)
    (h : commitUpdateEncounter db row personId groupId details = some db') : Together db' := by
  unfold commitUpdateEncounter at h
  split at h
  · obtain rfl := Option.some.inj h
    exact hT
  · split at h
    · cases h
      refine ⟨fun e' he' => ?_, hT.person, fun i hi id hid => ?_⟩
      · obtain ⟨e, he, -, hproject, ⟨hid, hperson, hgroup⟩ | ⟨-, rfl⟩⟩ := mem_rewritten he'
        · rw [hproject, hperson, hgroup]
          exact (update_names hT hrelies he hid).mono (fun _ hp => hp) fun _ hg => hg
        · exact hT.encounter e' he
      · obtain ⟨e, he, heid, hproject⟩ := hT.item i hi id hid
        obtain ⟨e', he', hid', hproject'⟩ := rewritten_mem he row personId groupId details
        exact ⟨e', he', hid'.trans heid, hproject'.trans hproject⟩
    · cases h

theorem setMembers_together {group : PersonGroup} {wanted : List Person} {members : List ℕ} (hT : Together db)
    (hrelies : MembersRely db group wanted) (h : commitSetMembers db group wanted members = some db') :
    Together db' := by
  obtain ⟨db₁, hcleared, h⟩ := Option.bind_eq_some_iff.mp h
  have hT₁ : Together db₁ := setGroup_together hT hcleared fun _ hg => nomatch hg
  refine setGroup_together hT₁ h fun groupId hg p₁ hp₁ hid => ?_
  obtain rfl := Option.some.inj hg
  obtain rfl := setGroup_some hcleared
  obtain ⟨p, hp, hpid, hproject, -⟩ := mem_regrouped hp₁
  obtain ⟨q, hq, hqid⟩ := List.mem_map.mp hid
  obtain ⟨hq, hnew⟩ := List.mem_filter.mp hq
  rw [hproject]
  exact hrelies q hq (by simpa using hnew) p hp (hpid.symm.trans hqid.symm)

theorem commit_together {p : Pending} (hT : Together db) (hrelies : Relies db p)
    (h : commit db p = some db') : Together db' := by
  cases p with
  | createProject userInfoId name =>
    obtain ⟨projects, -, h⟩ := Option.bind_eq_some_iff.mp h
    cases h
    exact ⟨hT.encounter, hT.person, hT.item⟩
  | createPerson projectId name =>
    obtain ⟨persons, hins, h⟩ := Option.bind_eq_some_iff.mp h
    cases h
    refine ⟨fun e he => ?_, fun p hp groupId hg => ?_, hT.item⟩
    · exact (hT.encounter e he).mono (fun p hp => (Table.mem_insert hins).mpr (.inl hp))
        fun g hg => hg
    · rcases (Table.mem_insert hins).mp hp with hp | rfl
      · exact hT.person p hp groupId hg
      · cases hg
  | createGroup projectId name =>
    obtain ⟨groups, hins, h⟩ := Option.bind_eq_some_iff.mp h
    cases h
    have hmem {g : PersonGroup} (hg : g ∈ db.groups) : g ∈ groups := (Table.mem_insert hins).mpr (.inl hg)
    refine ⟨fun e he => (hT.encounter e he).mono (fun p hp => hp) fun g hg => hmem hg,
      fun p hp groupId hg => ?_, hT.item⟩
    obtain ⟨g, hgroup, h⟩ := hT.person p hp groupId hg
    exact ⟨g, hmem hgroup, h⟩
  | createEncounter projectId personId groupId details => exact createEncounter_together hT hrelies h
  | updateEncounter row personId groupId details => exact updateEncounter_together hT hrelies h
  | setMembers group wanted members => exact setMembers_together hT hrelies h
  | deleteEncounter | deletePerson | deleteGroup | deleteProject =>
    exact deleteRows_together hT (hrelies _ rfl) h

/-! ## 4. The readers -/

/-- Everything that a reader has, and shows, is of the trip of its first row. -/
def ShownInTrip : Local → Prop
  | .personEncounters row encounters _ => ∀ e ∈ encounters, e.projectId = row.projectId
  | .personGroup row encounters _ group | .showingPerson row encounters group =>
    (∀ e ∈ encounters, e.projectId = row.projectId) ∧ ∀ g, group = some g → g.projectId = row.projectId
  | .showingGroup row members => ∀ p ∈ members, p.projectId = row.projectId
  | _ => True

/-- What the next query of a reader takes for granted: the id that it asks for is no row's of
    another trip. -/
def ReaderRelies (db : Db) : Local → Prop
  | .personRow row => ∀ p ∈ db.persons, p.id = row.id → p.projectId = row.projectId
  | .personEncounters row _ groupId | .personGroup row _ groupId _ =>
    ∀ g ∈ db.groups, g.id = groupId → g.projectId = row.projectId
  | .groupRow row => ∀ g ∈ db.groups, g.id = row.id → g.projectId = row.projectId
  | _ => True

theorem Together.encounter_person (hT : Together db) (he : e ∈ db.encounters) {id : ℕ}
    (hid : e.personId = some id) :
    ∃ p ∈ db.persons, p.id = id ∧ p.projectId = e.projectId := by
  rcases hT.encounter e he with ⟨p, hp, hep, -, hproject⟩ | ⟨g, -, hnone, -⟩
  · exact ⟨p, hp, Option.some.inj (hep.symm.trans hid), hproject⟩
  · cases hnone.symm.trans hid

theorem Together.encounter_group (hT : Together db) (he : e ∈ db.encounters) {id : ℕ}
    (hid : e.groupId = some id) :
    ∃ g ∈ db.groups, g.id = id ∧ g.projectId = e.projectId := by
  rcases hT.encounter e he with ⟨p, -, -, hnone, -⟩ | ⟨g, hg, -, heg, hproject⟩
  · cases hnone.symm.trans hid
  · exact ⟨g, hg, Option.some.inj (heg.symm.trans hid), hproject⟩

theorem begin_shown (db : Db) (r : Request) : ShownInTrip (begin db r) := by
  cases r with
  | createProject => simp only [begin]; split <;> trivial
  | createEncounter | updateEncounter =>
    simp only [begin]
    split
    · split <;> trivial
    · trivial
  | _ => simp only [begin]; split <;> trivial

theorem proceed_shown {others : Bool} {l l' : Local} (hT : Together db) (hr : ReaderRelies db l)
    (hl : ShownInTrip l) (h : proceed db others l = some l') :
    ShownInTrip l' := by
  cases l with
  | personRow row =>
    cases h
    have hshown : ∀ e ∈ db.encounters.rows.filter fun e => e.personId == some row.id,
        e.projectId = row.projectId := by
      intro e he
      obtain ⟨he, hid⟩ := List.mem_filter.mp he
      obtain ⟨p, hp, hpid, hproject⟩ := hT.encounter_person he (beq_iff_eq.mp hid)
      rw [← hproject]
      exact hr p hp hpid
    split
    · exact ⟨hshown, fun _ hg => nomatch hg⟩
    · exact hshown
  | personEncounters row encounters groupId =>
    cases h
    refine ⟨hl, fun g hg => ?_⟩
    obtain ⟨hmem, hid⟩ := Table.first_some hg
    exact hr g hmem (beq_iff_eq.mp hid)
  | personGroup row encounters groupId group =>
    cases h
    refine ⟨fun e he => ?_, hl.2⟩
    rcases List.mem_append.mp he with he | he
    · exact hl.1 e he
    · obtain ⟨he, hid⟩ := List.mem_filter.mp he
      obtain ⟨g, hg, hgid, hproject⟩ := hT.encounter_group he (beq_iff_eq.mp hid)
      rw [← hproject]
      exact hr g hg hgid
  | groupRow row =>
    cases h
    intro p hp
    obtain ⟨hp, hid⟩ := List.mem_filter.mp hp
    obtain ⟨g, hg, hgid, hproject⟩ := hT.person p hp row.id (beq_iff_eq.mp hid)
    rw [← hproject]
    exact hr g hg hgid
  | checkingMembers group todo wanted =>
    cases todo with
    | nil => cases h; trivial
    | cons id todo =>
      cases h
      split
      · split <;> trivial
      · trivial
  | creatingEncounter | updatingEncounter | deletingPerson | deletingGroup | deletingProject
  | projectEncounters | projectPersons =>
    cases h
    split <;> trivial
  | deletingEncounter | personItems | groupItems | groupMembers | currentMembers
  | projectGroups =>
    cases h
    trivial
  | _ => cases h

/-! ## 5. Every run -/

section Runs

variable {ι : Type}

def idleClients (db : Db) : Clients ι Local Db := ⟨fun _ => .idle, db⟩

theorem idleClients_shown (db : Db) (i : ι) : ShownInTrip ((idleClients db).locals i) := trivial

/-- At its first write a transaction finds what it relies on, and so does a reader at its next
    query. -/
def FindsReliedOn (w : Clients ι Local Db) : ι × Act → Prop
  | (i, .commit) => ∀ p, w.locals i = .pending p → Relies w.store p
  | (i, .next _) => ReaderRelies w.store (w.locals i)
  | _ => True

theorem together_kept : Kept (ι := ι) step FindsReliedOn Together fun l _ => ShownInTrip l where
  own := by
    intro w i a l' db' hT hI hC h
    rcases step_cases h with ⟨hr, rfl⟩ | ⟨p, hp, rfl, rfl, hcommit | ⟨-, rfl⟩⟩
    · refine ⟨hT, ?_⟩
      unfold read at hr
      split at hr
      · cases hr
        split
        · exact begin_shown _ _
        · trivial
      · exact proceed_shown hT hC (hI i) hr
      · obtain ⟨p, -, rfl⟩ := Option.map_eq_some_iff.mp hr
        trivial
      · cases hr
        trivial
      · cases hr
        trivial
      · cases hr
    · exact ⟨commit_together hT (hC p hp) hcommit, trivial⟩
    · exact ⟨hT, trivial⟩
  other := fun w _ _ _ _ j _ _ hI _ _ => hI j

/-- **People and encounters stay in their trip**: in every run from the empty tables whose
    transactions and readers find what they rely on, every encounter names exactly one person or
    group, and they, a person's group and an item's encounter are there and of the same trip; and
    `get_person` and `get_group` show no row of another trip. -/
theorem people_stay_in_trip [DecidableEq ι] {tr : List (ι × Act)} {w : Clients ι Local Db}
    (h : Run (Meeting (Steps (Clients.step step)) FindsReliedOn) (idleClients .empty) tr w) :
    Together w.store ∧ ∀ i, ShownInTrip (w.locals i) :=
  together_kept.run Together.empty (idleClients_shown .empty) h

/-- What is noted of a meeting. -/
def metOnTheWay : EncounterDetails := ⟨"2024-05-01", none, some "met on the way", "custom", none, none⟩

/-- Client 1 begins to delete a person; before it looks for their encounters, client 0 adds one. -/
def addedBefore : List (ℕ × Act) :=
  [(0, .start (.createProject 0 "Alps") true), (0, .commit),
   (0, .start (.createPerson 0 "Alps" (some "Ann")) true), (0, .commit),
   (0, .start (.createEncounter 0 "Alps" (some 1) none metOnTheWay) true), (0, .next false),
   (1, .start (.deletePerson 1) true), (0, .commit), (1, .next false), (1, .next false),
   (1, .commit)]

theorem people_stay_in_trip_added : ∃ w : Clients ℕ Local Db,
    exec (Clients.step step) (idleClients .empty) addedBefore = some w ∧
    w.store.encounters.rows = [] ∧ w.store.items.rows = [] ∧ Together w.store := by
  have hmeet : AllMeet (Clients.step step) FindsReliedOn (idleClients .empty) addedBefore := by
    refine .cons rfl trivial (.cons rfl ?_ (.cons rfl trivial (.cons rfl ?_
      (.cons rfl trivial (.cons rfl trivial (.cons rfl trivial (.cons rfl ?_
      (.cons rfl trivial (.cons rfl trivial (.cons rfl ?_ trivial))))))))))
    · intro p hp
      cases hp
      exact fun _ hd => nomatch hd
    · intro p hp
      cases hp
      exact fun _ hd => nomatch hd
    · intro p hp
      cases hp
      exact .inl ⟨_, List.mem_singleton_self _, rfl, rfl, rfl⟩
    · intro p hp
      cases hp
      intro d hd
      cases hd
      refine ⟨fun i hi id _ _ => ?_, fun e he id _ _ => ?_, (fun _ _ _ hid => nomatch hid),
        (fun _ _ _ hid => nomatch hid)⟩
      · obtain rfl := List.mem_singleton.mp hi
        exact List.mem_singleton_self _
      · obtain rfl := List.mem_singleton.mp he
        exact List.mem_singleton_self _
  have hrun := run_of_allMeet rfl hmeet
  exact ⟨_, rfl, rfl, rfl, (people_stay_in_trip hrun).1⟩

/-- Client 0 checks person 1 of trip 1; client 1 deletes them, and user 1 adds a person to trip 2,
    who gets the id; then client 0 adds the encounter, and client 2 reads the person. -/
def strangersNote : List (ℕ × Act) :=
  [(0, .start (.createProject 0 "Alps") true), (0, .commit),
   (2, .start (.createProject 1 "Private") true), (2, .commit),
   (0, .start (.createPerson 0 "Alps" (some "Ann")) true), (0, .commit),
   (0, .start (.createEncounter 0 "Alps" (some 1) none metOnTheWay) true), (0, .next false),
   (1, .start (.deletePerson 1) true), (1, .next false), (1, .commit),
   (2, .start (.createPerson 1 "Private" (some "Bob")) true), (2, .commit),
   (0, .commit), (2, .start (.getPerson 1) true), (2, .next false)]

/-- The owner of trip 2 then reads a note of trip 1. -/
theorem stranger_sees_note : ∃ w : Clients ℕ Local Db,
    Run (Steps (Clients.step step)) (idleClients .empty) strangersNote w ∧
    ¬ Together w.store ∧ ¬ ShownInTrip (w.locals 2) := by
  have hrun : Run (Steps (Clients.step step)) (idleClients .empty) strangersNote _ := run_iff_exec.mpr rfl
  refine ⟨_, hrun, fun hT => ?_, fun hshown => ?_⟩
  · rcases hT.encounter _ (List.mem_singleton_self _) with ⟨p, hp, -, -, hproject⟩ | ⟨g, hg, -⟩
    · obtain rfl := List.mem_singleton.mp hp
      cases hproject
    · exact nomatch hg
  · have hshown : ShownInTrip (.showingPerson ⟨1, 2, some "Bob", none⟩
        [⟨1, 1, some 1, none, metOnTheWay⟩] none) := hshown
    cases hshown.1 _ (List.mem_singleton_self _)

end Runs

end TraxJourney.People
