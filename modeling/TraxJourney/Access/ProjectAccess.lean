/-
  File:      Access/ProjectAccess.lean
  Subject:   Who may use a trip (`api/project_access.py`): the rows that say so, and the two
             functions every route asks.

  * `Db` -- the trips, their members and their two kinds of invite, each table with its key.
-/
import TraxJourney.Lib.Table

namespace TraxJourney.Access

open Lib

/-! ## 1. Rows and tables -/

/-- The role of a membership row. -/
inductive Role where
  | viewer | editor | coOwner
  deriving DecidableEq

/-- The four access tiers, low to high; the owner's is no membership row. -/
inductive Tier where
  | viewer | editor | coOwner | owner
  deriving DecidableEq

def Role.tier : Role → Tier
  | .viewer => .viewer
  | .editor => .editor
  | .coOwner => .coOwner

/-- `_ROLE_RANK`. -/
def Tier.rank : Tier → ℕ
  | .viewer => 0
  | .editor => 1
  | .coOwner => 2
  | .owner => 3

structure Project where
  id : ℕ
  userInfoId : ℕ
  name : String

structure Member where
  projectId : ℕ
  userInfoId : ℕ
  role : Role
  invitedBy : ℕ

/-- The shared link of a trip: whoever opens it joins with its role. -/
structure Invite where
  projectId : ℕ
  token : ℕ
  role : Role
  createdBy : ℕ

/-- An invite addressed to one email; `accepted` is `accepted_at is not None`. -/
structure PendingInvite where
  id : ℕ
  projectId : ℕ
  email : String
  token : ℕ
  role : Role
  invitedBy : ℕ
  accepted : Bool

/-- A membership row is unique per trip and user. -/
def Member.key (m : Member) : ℕ × ℕ := (m.projectId, m.userInfoId)

/-- The tables. A token is a fresh uuid: `tokens` counts those drawn. -/
structure Db where
  projects : Table Project Project.id
  members : Table Member Member.key
  invites : Table Invite Invite.token
  pendingInvites : Table PendingInvite PendingInvite.id
  tokens : ℕ

structure HttpException where
  status : ℕ
  detail : String
  deriving DecidableEq

/-! ## 2. The caller's tier -/

def minRoleDetail : Tier → String
  | .viewer => "Forbidden"
  | .editor => "You need editor access to do this"
  | .coOwner => "Only the trip owner or a co-owner can do this"
  | .owner => "Only the trip owner can do this"

def callerRole (db : Db) (projectId userInfoId : ℕ) : Option Role :=
  (db.members.first fun m => m.projectId == projectId && m.userInfoId == userInfoId).map (·.role)

def roleSatisfies (role : Option Tier) (minRole : Tier) : Bool :=
  match role with
  | none => false
  | some r => decide (minRole.rank ≤ r.rank)

def effectiveRole (db : Db) (row : Project) (callerId : ℕ) : Option Tier :=
  if row.userInfoId = callerId then some .owner
  else (callerRole db row.id callerId).map Role.tier

def requireRole (db : Db) (row : Project) (callerId : ℕ) (minRole : Tier) : Except HttpException Unit :=
  if roleSatisfies (effectiveRole db row callerId) minRole then .ok ()
  else .error ⟨403, minRoleDetail minRole⟩

/-- The trip of an owner by name. -/
def projectByName (db : Db) (userInfoId : ℕ) (name : String) : Option Project :=
  db.projects.first fun r => r.userInfoId == userInfoId && r.name == name

def projectNotFound : HttpException := ⟨404, "Project not found"⟩

/-- A trip by name: the caller's own without an `ownerId`, another's through a membership row. -/
def resolveProject (db : Db) (callerId : ℕ) (name : String) (ownerId : Option ℕ)
    (minRole : Tier) : Except HttpException Project :=
  match ownerId.filter (· ≠ callerId) with
  | some owner =>
    match projectByName db owner name with
    | none => .error projectNotFound
    | some row =>
      match callerRole db row.id callerId with
      | none => .error projectNotFound
      | some role =>
        if roleSatisfies (some role.tier) minRole then .ok row
        else .error ⟨403, minRoleDetail minRole⟩
  | none =>
    match projectByName db callerId name with
    | none => .error projectNotFound
    | some row => .ok row

/-- A trip by id, as the routes of its parts take it. -/
def assertProjectAccess (db : Db) (callerId projectId : ℕ) (minRole : Tier) : Except HttpException Project :=
  match db.projects.first fun r => r.id == projectId with
  | none => .error ⟨403, "Forbidden"⟩
  | some row =>
    if roleSatisfies (effectiveRole db row callerId) minRole then .ok row
    else .error ⟨403, "Forbidden"⟩

/-! ## 3. What passing means -/

/-- `callerId` uses the trip `row` with a tier of at least `minRole`. -/
structure Db.Passes (db : Db) (callerId : ℕ) (row : Project) (minRole : Tier) : Prop where
  mem : row ∈ db.projects
  tier : ∃ r, effectiveRole db row callerId = some r ∧ minRole.rank ≤ r.rank

variable {db : Db}

theorem callerRole_some {projectId userInfoId : ℕ} {role : Role}
    (h : callerRole db projectId userInfoId = some role) :
    ∃ m ∈ db.members, m.projectId = projectId ∧ m.userInfoId = userInfoId ∧ m.role = role := by
  obtain ⟨m, hm, rfl⟩ := Option.map_eq_some_iff.mp h
  obtain ⟨hmem, hp⟩ := Table.first_some hm
  simp only [Bool.and_eq_true, beq_iff_eq] at hp
  exact ⟨m, hmem, hp.1, hp.2, rfl⟩

theorem callerRole_of_mem {m : Member} (h : m ∈ db.members) :
    callerRole db m.projectId m.userInfoId = some m.role := by
  unfold callerRole
  obtain ⟨m', hm'⟩ := Table.first_isSome h
    (p := fun x => x.projectId == m.projectId && x.userInfoId == m.userInfoId) (by simp)
  obtain ⟨hmem, hp⟩ := Table.first_some hm'
  simp only [Bool.and_eq_true, beq_iff_eq] at hp
  rw [hm', Option.map_some, Table.eq_of_key hmem h (Prod.ext hp.1 hp.2)]

variable {minRole : Tier}

theorem roleSatisfies_some {r : Tier} :
    roleSatisfies (some r) minRole = true ↔ minRole.rank ≤ r.rank := decide_eq_true_iff

variable {row : Project} {callerId : ℕ}

theorem effectiveRole_other (h : row.userInfoId ≠ callerId) :
    effectiveRole db row callerId = (callerRole db row.id callerId).map Role.tier := if_neg h

theorem projectByName_some {userInfoId : ℕ} {name : String}
    (h : projectByName db userInfoId name = some row) :
    row ∈ db.projects ∧ row.userInfoId = userInfoId := by
  obtain ⟨hmem, hp⟩ := Table.first_some h
  simp only [Bool.and_eq_true, beq_iff_eq] at hp
  exact ⟨hmem, hp.1⟩

theorem resolveProject_passes {name : String} {ownerId : Option ℕ}
    (h : resolveProject db callerId name ownerId minRole = .ok row) :
    db.Passes callerId row minRole := by
  unfold resolveProject at h
  split at h
  · rename_i owner howner
    have hne : owner ≠ callerId := by simpa using (Option.filter_eq_some_iff.mp howner).2
    split at h
    · cases h
    · rename_i r hr
      obtain ⟨hmem, hown⟩ := projectByName_some hr
      split at h
      · cases h
      · rename_i role hrole
        split at h
        · rename_i hsat
          cases h
          refine ⟨hmem, role.tier, ?_, roleSatisfies_some.mp hsat⟩
          rw [effectiveRole_other (by rw [hown]; exact hne), hrole]
          rfl
        · cases h
  · split at h
    · cases h
    · rename_i r hr
      obtain ⟨hmem, hown⟩ := projectByName_some hr
      cases h
      -- the caller's own trip: the owner's tier is above every floor
      refine ⟨hmem, .owner, if_pos hown, ?_⟩
      cases minRole <;> decide

theorem assertProjectAccess_passes {projectId : ℕ}
    (h : assertProjectAccess db callerId projectId minRole = .ok row) :
    db.Passes callerId row minRole := by
  unfold assertProjectAccess at h
  split at h
  · cases h
  · rename_i r hr
    obtain ⟨hmem, -⟩ := Table.first_some hr
    split at h
    · rename_i hsat
      cases h
      cases he : effectiveRole db row callerId with
      | none => rw [he] at hsat; cases hsat
      | some t => exact ⟨hmem, t, he, roleSatisfies_some.mp (he ▸ hsat)⟩
    · cases h

theorem Db.Passes.member (h : db.Passes callerId row minRole) (hne : row.userInfoId ≠ callerId) :
    ∃ m ∈ db.members, m.projectId = row.id ∧ m.userInfoId = callerId ∧ minRole.rank ≤ m.role.tier.rank := by
  obtain ⟨r, hr, hle⟩ := h.tier
  rw [effectiveRole_other hne] at hr
  obtain ⟨role, hrole, rfl⟩ := Option.map_eq_some_iff.mp hr
  obtain ⟨m, hm, hp, hu, rfl⟩ := callerRole_some hrole
  exact ⟨m, hm, hp, hu, hle⟩

end TraxJourney.Access
