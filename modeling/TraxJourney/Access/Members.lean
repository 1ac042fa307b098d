/-
  File:      Access/Members.lean
  Subject:   Travel companions (`api/members.py`): the routes that make, send, list, revoke,
             decline and accept invites and that list and remove members.

  * **`handle_change`** -- everything a request can do to the tables and to the history, said
    once (`Change`); the laws over runs are read off it.

  A request runs alone: it reads and writes in one session. Names, avatars and times are left
  out; what is left out decides nothing.
-/
import TraxJourney.Access.ProjectAccess
import TraxJourney.Lib.Runs

namespace TraxJourney.Access

open Lib

/-! ## 1. Accounts, replies, history -/

structure UserInfo where
  email : String
  emailVerified : Bool
  encryptionEnabled : Bool

/-- The accounts, and how an address is checked and brought to the form it is stored in. -/
structure Directory where
  user : ℕ → Option UserInfo
  isValidEmail : String → Bool
  normalizeEmail : String → String

/-- What a request did. -/
inductive Event where
  | tripCreated (projectId : ℕ)
  | inviteMade (token projectId : ℕ)
  /-- an addressed invite went out, at its creation or again -/
  | inviteSent (token projectId : ℕ)
  /-- `joined`: a membership row was added -/
  | accepted (userInfoId token projectId : ℕ) (joined : Bool)
  | removed (userInfoId projectId byUser : ℕ)
  deriving DecidableEq

inductive Response where
  | noContent
  /-- the shared link's token and role, and the addressed token that was mailed, if any -/
  | inviteToken (token : ℕ) (role : Role) (mailed : Option (String × ℕ))
  | pendingInvites (rows : List PendingInvite)
  | members (rows : List (ℕ × Tier))
  | myPendingInvites (rows : List PendingInvite)
  | preview (projectId : ℕ) (role : Role) (invitedEmail : Option String)
  | accepted (name : String) (ownerId : ℕ)

/-- The tables after a request, its reply, and what it did, newest first. -/
structure Served (α : Type) where
  db : Db
  reply : Except HttpException α
  events : List Event := []

def inviteNotFound : HttpException := ⟨404, "Invite not found"⟩

/-- An insert of a taken key. -/
def integrityError : HttpException := ⟨500, "Internal Server Error"⟩

def maxPendingPerProject : ℕ := 50

/-- The caller's confirmed address, or "" when unverified or absent. -/
def verifiedEmail (dir : Directory) (userInfoId : ℕ) : String :=
  match dir.user userInfoId with
  | none => ""
  | some u => if u.emailVerified then dir.normalizeEmail u.email else ""

/-- Whether the trip owner has end-to-end encryption on. -/
def ownerEncrypted (dir : Directory) (row : Project) : Bool :=
  (dir.user row.userInfoId).any (·.encryptionEnabled)

def ownerEncryptedError : HttpException :=
  ⟨409, "Travel companions are not available on encrypted accounts — companions could not read or write encrypted trip content."⟩

def projectById (db : Db) (projectId : ℕ) : Option Project := db.projects.first fun r => r.id == projectId

/-! ## 2. The routes -/

/-- The shared link of a trip, as `createInvite` finds it. -/
def sharedInvite (db : Db) (projectId : ℕ) : Option Invite :=
  db.invites.first fun i => i.projectId == projectId

/-- Either kind of invite by its token. -/
inductive AnyInvite where
  | shared (i : Invite)
  | pending (q : PendingInvite)

def AnyInvite.role : AnyInvite → Role
  | .shared i => i.role
  | .pending q => q.role

def AnyInvite.projectId : AnyInvite → ℕ
  | .shared i => i.projectId
  | .pending q => q.projectId

def AnyInvite.invitedBy : AnyInvite → ℕ
  | .shared i => i.createdBy
  | .pending q => q.invitedBy

/-- `_resolve_any_invite`: addressed invites first. -/
def resolveAnyInvite (db : Db) (token : ℕ) : Except HttpException (AnyInvite × Project) :=
  match db.pendingInvites.first fun q => q.token == token with
  | some q =>
    match projectById db q.projectId with
    | none => .error inviteNotFound
    | some row => .ok (.pending q, row)
  | none =>
    match db.invites.first fun i => i.token == token with
    | none => .error inviteNotFound
    | some i =>
      match projectById db i.projectId with
      | none => .error inviteNotFound
      | some row => .ok (.shared i, row)

/-- The shared link of the trip, made with this role if there is none. -/
def getOrMakeShared (db : Db) (projectId createdBy : ℕ) (role : Role) : Option (Db × Invite × List Event) :=
  match sharedInvite db projectId with
  | some i => some (db, i, [])
  | none =>
    let i : Invite := ⟨projectId, db.tokens, role, createdBy⟩
    (db.invites.insert i).map fun t =>
      ({ db with invites := t, tokens := db.tokens + 1 }, i, [.inviteMade i.token projectId])

/-- The invite addressed to `target`, made with this role if there is none. -/
def getOrMakePending (db : Db) (projectId : ℕ) (target : String) (role : Role) (invitedBy : ℕ) :
    Except HttpException (Db × PendingInvite × List Event) :=
  match db.pendingInvites.first fun q => q.projectId == projectId && q.email == target with
  | some q => .ok (db, q, [])
  | none =>
    let outstanding := (db.pendingInvites.rows.filter fun q => q.projectId == projectId && !q.accepted).length
    if outstanding ≥ maxPendingPerProject then
      .error ⟨409, "This trip already has 50 invites waiting to be accepted. Revoke some first."⟩
    else
      let q : PendingInvite :=
        ⟨db.pendingInvites.nextId, projectId, target, db.tokens, role, invitedBy, false⟩
      match db.pendingInvites.insert q with
      | none => .error integrityError
      | some t => .ok ({ db with pendingInvites := t, tokens := db.tokens + 1 }, q,
          [.inviteMade q.token projectId])

/-- `body.email`, normalised and checked. -/
def checkedEmail (dir : Directory) (email : Option String) : Except HttpException (Option String) :=
  match email with
  | none => .ok none
  | some e =>
    if dir.isValidEmail (dir.normalizeEmail e) then .ok (some (dir.normalizeEmail e))
    else .error ⟨422, "Not a valid email address"⟩

/-- The invite link of a trip, and, where an address is given, an invite addressed to it. The
    shared link stays where sending is then refused. `limited`: the sender's rate limit is used
    up. -/
def createInvite (dir : Directory) (db : Db) (caller : ℕ) (name : String) (owner : Option ℕ)
    (role : Role) (email : Option String) (limited : Bool) : Served Response :=
  match checkedEmail dir email with
  | .error e => ⟨db, .error e, []⟩
  | .ok target =>
  match resolveProject db caller name owner .coOwner with
  | .error e => ⟨db, .error e, []⟩
  | .ok row =>
  match (if role = .coOwner then requireRole db row caller .owner else .ok ()) with
  | .error e => ⟨db, .error e, []⟩
  | .ok () =>
  if ownerEncrypted dir row then ⟨db, .error ownerEncryptedError, []⟩
  else match getOrMakeShared db row.id caller role with
  | none => ⟨db, .error integrityError, []⟩
  | some (db₁, invite, made) =>
  match target with
  | none => ⟨db₁, .ok (.inviteToken invite.token invite.role none), made⟩
  | some target =>
  if !(dir.user caller).any (·.emailVerified) then
    ⟨db₁, .error ⟨403, "Confirm your own email address before sending invites."⟩, made⟩
  else if limited then
    ⟨db₁, .error ⟨429, "Too many invites sent recently. Please wait a few minutes and try again."⟩, made⟩
  else match getOrMakePending db₁ row.id target role caller with
  | .error e => ⟨db₁, .error e, made⟩
  | .ok (db₂, q, addressed) =>
    ⟨db₂, .ok (.inviteToken invite.token invite.role (some (target, q.token))),
      .inviteSent q.token row.id :: (addressed ++ made)⟩

def revokeInvite (db : Db) (caller : ℕ) (name : String) (owner : Option ℕ) : Served Response :=
  match resolveProject db caller name owner .coOwner with
  | .error e => ⟨db, .error e, []⟩
  | .ok row => ⟨{ db with invites := db.invites.delete fun i => i.projectId == row.id }, .ok .noContent, []⟩

/-- The rows of `listPendingInvites`: addressed to someone who has not joined by them yet. -/
def waitingInvites (db : Db) (projectId : ℕ) : List PendingInvite :=
  db.pendingInvites.rows.filter fun q => q.projectId == projectId && !q.accepted

def listPendingInvites (db : Db) (caller : ℕ) (name : String) (owner : Option ℕ) : Served Response :=
  match resolveProject db caller name owner .coOwner with
  | .error e => ⟨db, .error e, []⟩
  | .ok row => ⟨db, .ok (.pendingInvites (waitingInvites db row.id)), []⟩

def revokePendingInvite (db : Db) (caller : ℕ) (name : String) (owner : Option ℕ)
    (inviteId : ℕ) : Served Response :=
  match resolveProject db caller name owner .coOwner with
  | .error e => ⟨db, .error e, []⟩
  | .ok row =>
    match db.pendingInvites.first fun q => q.id == inviteId with
    | none => ⟨db, .error inviteNotFound, []⟩
    | some q =>
      if q.projectId ≠ row.id then ⟨db, .error inviteNotFound, []⟩
      else ⟨{ db with pendingInvites := db.pendingInvites.delete fun x => x.id == q.id },
        .ok .noContent, []⟩

def listMembers (db : Db) (caller : ℕ) (name : String) (owner : Option ℕ) : Served Response :=
  match resolveProject db caller name owner .viewer with
  | .error e => ⟨db, .error e, []⟩
  | .ok row =>
    ⟨db, .ok (.members ((row.userInfoId, Tier.owner) ::
      (db.members.rows.filter fun m => m.projectId == row.id).map fun m => (m.userInfoId, m.role.tier))), []⟩

/-- A co-owner removes a viewer or editor, the owner anyone, and any member themselves. -/
def removeMember (db : Db) (caller : ℕ) (name : String) (owner : Option ℕ) (userId : ℕ) : Served Response :=
  let isSelf := userId == caller
  match resolveProject db caller name owner (if isSelf then .viewer else .coOwner) with
  | .error e => ⟨db, .error e, []⟩
  | .ok row =>
    match db.members.first fun m => m.projectId == row.id && m.userInfoId == userId with
    | none => ⟨db, .error ⟨404, "Member not found"⟩, []⟩
    | some member =>
      match (if !isSelf && member.role = .coOwner then requireRole db row caller .owner
        else .ok ()) with
      | .error e => ⟨db, .error e, []⟩
      | .ok () =>
        ⟨{ db with members := db.members.delete fun m => m.key == member.key },
          .ok .noContent, [.removed userId row.id caller]⟩

def listMyPendingInvites (dir : Directory) (db : Db) (caller : ℕ) : Served Response :=
  let email := verifiedEmail dir caller
  if email = "" then ⟨db, .ok (.myPendingInvites []), []⟩
  else
    let rows := db.pendingInvites.rows.filter fun q => q.email == email && !q.accepted
    ⟨db, .ok (.myPendingInvites (rows.filter fun q =>
      (projectById db q.projectId).any fun row => row.userInfoId != caller)), []⟩

def previewInvite (db : Db) (token : ℕ) : Served Response :=
  match resolveAnyInvite db token with
  | .error e => ⟨db, .error e, []⟩
  | .ok (invite, row) =>
    ⟨db, .ok (.preview row.id invite.role (match invite with
        | .pending q => some q.email
        | .shared _ => none)), []⟩

def declineInvite (dir : Directory) (db : Db) (caller : ℕ) (token : ℕ) : Served Response :=
  match resolveAnyInvite db token with
  | .error e => ⟨db, .error e, []⟩
  | .ok (.shared _, _) => ⟨db, .error ⟨409, "This kind of invite link can't be declined."⟩, []⟩
  | .ok (.pending q, _) =>
    if q.email ≠ verifiedEmail dir caller then ⟨db, .error inviteNotFound, []⟩
    else ⟨{ db with pendingInvites := db.pendingInvites.delete fun x => x.id == q.id },
      .ok .noContent, []⟩

/-- An addressed invite is taken up by its own address only. -/
def addressedTo (dir : Directory) (caller : ℕ) : AnyInvite → Bool
  | .shared _ => true
  | .pending q => q.email == verifiedEmail dir caller

def PendingInvite.accept (q : PendingInvite) : PendingInvite := { q with accepted := true }

theorem PendingInvite.accept_id (q : PendingInvite) : q.accept.id = q.id := rfl

/-- `invite.accepted_at = time.time()` on an addressed invite. -/
def markAccepted (db : Db) : AnyInvite → Db
  | .shared _ => db
  | .pending q =>
    { db with
      pendingInvites := db.pendingInvites.update (fun x => x.id == q.id) (·.accept) PendingInvite.accept_id }

/-- The invite's address, in the refusal of someone else. -/
def addressedError : AnyInvite → HttpException
  | .shared _ => inviteNotFound
  | .pending q => ⟨403, "This invite was sent to " ++ q.email ++
      ". Sign in with that address and confirm it to accept."⟩

/-- Join the trip of an invite with its role; a member keeps the role they have. -/
def acceptInvite (dir : Directory) (db : Db) (caller : ℕ) (token : ℕ) : Served Response :=
  match resolveAnyInvite db token with
  | .error e => ⟨db, .error e, []⟩
  | .ok (invite, row) =>
  if row.userInfoId = caller then ⟨db, .error ⟨409, "You already own this trip"⟩, []⟩
  else if !addressedTo dir caller invite then ⟨db, .error (addressedError invite), []⟩
  else if ownerEncrypted dir row then ⟨db, .error ownerEncryptedError, []⟩
  else match callerRole db row.id caller with
  | some _ =>
    ⟨markAccepted db invite, .ok (.accepted row.name row.userInfoId), [.accepted caller token row.id false]⟩
  | none =>
    match db.members.insert ⟨row.id, caller, invite.role, invite.invitedBy⟩ with
    | none => ⟨db, .error integrityError, []⟩
    | some members =>
      ⟨markAccepted { db with members := members } invite,
        .ok (.accepted row.name row.userInfoId), [.accepted caller token row.id true]⟩

/-! ## 3. Requests -/

inductive Request where
  | createInvite (name : String) (owner : Option ℕ) (role : Role) (email : Option String) (limited : Bool)
  | revokeInvite (name : String) (owner : Option ℕ)
  | listPendingInvites (name : String) (owner : Option ℕ)
  | revokePendingInvite (name : String) (owner : Option ℕ) (inviteId : ℕ)
  | listMembers (name : String) (owner : Option ℕ)
  | removeMember (name : String) (owner : Option ℕ) (userId : ℕ)
  | listMyPendingInvites
  | previewInvite (token : ℕ)
  | declineInvite (token : ℕ)
  | acceptInvite (token : ℕ)

def serve (dir : Directory) (db : Db) (caller : ℕ) : Request → Served Response
  | .createInvite name owner role email limited => createInvite dir db caller name owner role email limited
  | .revokeInvite name owner => revokeInvite db caller name owner
  | .listPendingInvites name owner => listPendingInvites db caller name owner
  | .revokePendingInvite name owner inviteId => revokePendingInvite db caller name owner inviteId
  | .listMembers name owner => listMembers db caller name owner
  | .removeMember name owner userId => removeMember db caller name owner userId
  | .listMyPendingInvites => listMyPendingInvites dir db caller
  | .previewInvite token => previewInvite db token
  | .declineInvite token => declineInvite dir db caller token
  | .acceptInvite token => acceptInvite dir db caller token

/-! ## 4. What a request can do -/

/-- The tables, and what was done to them so far, newest first. -/
structure World where
  db : Db
  log : List Event

def handle (dir : Directory) (w : World) (caller : ℕ) (req : Request) : World :=
  let r := serve dir w.db caller req
  ⟨r.db, r.events ++ w.log⟩

/-- What `createInvite` does, one write or mail at a time. Only the owner makes an invite with the
    co-owner role. -/
inductive Made (caller : ℕ) (w : World) : World → Prop where
  | shared {row : Project} {role : Role} {t : Table Invite Invite.token}
      (hrow : row ∈ w.db.projects) (hrole : role = .coOwner → row.userInfoId = caller)
      (hnone : sharedInvite w.db row.id = none)
      (ht : w.db.invites.insert ⟨row.id, w.db.tokens, role, caller⟩ = some t) :
      Made caller w ⟨{ w.db with invites := t, tokens := w.db.tokens + 1 },
        .inviteMade w.db.tokens row.id :: w.log⟩
  | addressed {row : Project} {role : Role} {target : String} {q : PendingInvite}
      {t : Table PendingInvite PendingInvite.id}
      (hrow : row ∈ w.db.projects) (hrole : role = .coOwner → row.userInfoId = caller)
      (hq : q = ⟨w.db.pendingInvites.nextId, row.id, target, w.db.tokens, role, caller, false⟩)
      (ht : w.db.pendingInvites.insert q = some t) :
      Made caller w ⟨{ w.db with pendingInvites := t, tokens := w.db.tokens + 1 },
        .inviteSent q.token row.id :: .inviteMade q.token row.id :: w.log⟩
  | sentAgain {row : Project} {q : PendingInvite} (hq : q ∈ w.db.pendingInvites)
      (hp : q.projectId = row.id) : Made caller w ⟨w.db, .inviteSent q.token row.id :: w.log⟩

/-- The guards of `acceptInvite`: the token's invite and its trip, which is not the caller's own;
    an addressed invite is addressed to the caller; and the trip takes companions. -/
structure TakesUp (dir : Directory) (db : Db) (caller token : ℕ) (invite : AnyInvite)
    (row : Project) : Prop where
  found : resolveAnyInvite db token = .ok (invite, row)
  notOwner : row.userInfoId ≠ caller
  addressed : addressedTo dir caller invite = true
  plain : ownerEncrypted dir row = false

/-- **Everything a request can do**, by cases on what changed. -/
inductive Change (dir : Directory) (caller : ℕ) (w : World) : Request → World → Prop where
  | none {req : Request} : Change dir caller w req w
  | made {name : String} {owner : Option ℕ} {role : Role} {email : Option String} {limited : Bool}
      {w₁ w' : World} (h₁ : w₁ = w ∨ Made caller w w₁) (h₂ : w' = w₁ ∨ Made caller w₁ w') :
      Change dir caller w (.createInvite name owner role email limited) w'
  | linkRevoked {req : Request} (row : Project) : Change dir caller w req
      ⟨{ w.db with invites := w.db.invites.delete fun i => i.projectId == row.id }, w.log⟩
  | pendingDeleted {req : Request} (q : PendingInvite) : Change dir caller w req
      ⟨{ w.db with pendingInvites := w.db.pendingInvites.delete fun x => x.id == q.id }, w.log⟩
  | removed {name : String} {owner : Option ℕ} {userId : ℕ} {row : Project} {member : Member}
      (hrow : row ∈ w.db.projects)
      (hres : userId ≠ caller → resolveProject w.db caller name owner .coOwner = .ok row)
      (hm : member ∈ w.db.members) (hp : member.projectId = row.id)
      (hu : member.userInfoId = userId)
      (hco : userId ≠ caller → member.role = .coOwner → row.userInfoId = caller) :
      Change dir caller w (.removeMember name owner userId)
        ⟨{ w.db with members := w.db.members.delete fun m => m.key == member.key },
          .removed userId row.id caller :: w.log⟩
  | accepted {token : ℕ} {invite : AnyInvite} {row : Project} {role : Role}
      (htake : TakesUp dir w.db caller token invite row)
      (hmember : callerRole w.db row.id caller = some role) :
      Change dir caller w (.acceptInvite token)
        ⟨markAccepted w.db invite, .accepted caller token row.id false :: w.log⟩
  | joined {token : ℕ} {invite : AnyInvite} {row : Project} {t : Table Member Member.key}
      (htake : TakesUp dir w.db caller token invite row)
      (hmember : callerRole w.db row.id caller = Option.none)
      (ht : w.db.members.insert ⟨row.id, caller, invite.role, invite.invitedBy⟩ = some t) :
      Change dir caller w (.acceptInvite token) ⟨markAccepted { w.db with members := t } invite,
          .accepted caller token row.id true :: w.log⟩

theorem requireRole_owner {db : Db} {row : Project} {callerId : ℕ}
    (h : requireRole db row callerId .owner = .ok ()) : row.userInfoId = callerId := by
  by_contra hne
  unfold requireRole at h
  rw [effectiveRole_other hne] at h
  cases hr : callerRole db row.id callerId with
  | none => rw [hr] at h; cases h
  | some role =>
    rw [hr] at h
    cases role <;> cases h

variable {caller : ℕ} {role : Role} {i : Invite}

theorem getOrMakeShared_made (log : List Event) {db db₁ : Db} {row : Project} {made : List Event}
    (hrow : row ∈ db.projects) (hrole : role = .coOwner → row.userInfoId = caller)
    (h : getOrMakeShared db row.id caller role = some (db₁, i, made)) :
    (⟨db₁, made ++ log⟩ : World) = ⟨db, log⟩ ∨ Made caller ⟨db, log⟩ ⟨db₁, made ++ log⟩ := by
  unfold getOrMakeShared at h
  cases hs : sharedInvite db row.id with
  | some i' =>
    rw [hs] at h
    cases h
    exact .inl rfl
  | none =>
    rw [hs] at h
    obtain ⟨t, ht, he⟩ := Option.map_eq_some_iff.mp h
    cases he
    exact .inr (.shared hrow hrole hs ht)

variable {q : PendingInvite}

theorem getOrMakePending_made (log : List Event) {db db₂ : Db} {row : Project} {target : String}
    {addressed : List Event} (hrow : row ∈ db.projects) (hrole : role = .coOwner → row.userInfoId = caller)
    (h : getOrMakePending db row.id target role caller = .ok (db₂, q, addressed)) :
    Made caller ⟨db, log⟩ ⟨db₂, .inviteSent q.token row.id :: (addressed ++ log)⟩ := by
  unfold getOrMakePending at h
  split at h
  · rename_i q' hq
    cases h
    obtain ⟨hmem, hp⟩ := Table.first_some hq
    simp only [Bool.and_eq_true, beq_iff_eq] at hp
    exact .sentAgain hmem hp.1
  · simp only at h
    split at h
    · cases h
    · split at h
      · cases h
      · rename_i t ht
        cases h
        exact .addressed hrow hrole rfl ht

theorem getOrMakeShared_projects {db db₁ : Db} {projectId : ℕ} {made : List Event}
    (h : getOrMakeShared db projectId caller role = some (db₁, i, made)) :
    db₁.projects = db.projects := by
  unfold getOrMakeShared at h
  split at h
  · cases h
    rfl
  · obtain ⟨t, -, he⟩ := Option.map_eq_some_iff.mp h
    cases he
    rfl

variable {dir : Directory} {w : World}

theorem createInvite_change {name : String} {owner : Option ℕ} {email : Option String} {limited : Bool} :
    Change dir caller w (.createInvite name owner role email limited)
      ⟨(createInvite dir w.db caller name owner role email limited).db,
        (createInvite dir w.db caller name owner role email limited).events ++ w.log⟩ := by
  unfold createInvite
  split
  · exact .none
  split
  · exact .none
  rename_i row hrow
  have hmem := (resolveProject_passes hrow).mem
  split
  · exact .none
  rename_i hreq
  have hrole : role = .coOwner → row.userInfoId = caller := by
    rintro rfl
    exact requireRole_owner (by simpa using hreq)
  split
  · exact .none
  split
  · exact .none
  rename_i db₁ invite made hshared
  have h₁ := getOrMakeShared_made w.log hmem hrole hshared
  split
  · exact .made h₁ (.inl rfl)
  split
  · exact .made h₁ (.inl rfl)
  split
  · exact .made h₁ (.inl rfl)
  split
  · exact .made h₁ (.inl rfl)
  · rename_i db₂ q addressed hpending
    have hmem₁ : row ∈ db₁.projects := by rw [getOrMakeShared_projects hshared]; exact hmem
    have h₂ := getOrMakePending_made (made ++ w.log) hmem₁ hrole hpending
    exact .made h₁ (.inr (by simpa using h₂))

theorem removeMember_change {userId : ℕ} {name : String}
    {owner : Option ℕ} : Change dir caller w (.removeMember name owner userId)
      ⟨(removeMember w.db caller name owner userId).db,
        (removeMember w.db caller name owner userId).events ++ w.log⟩ := by
  unfold removeMember
  simp only
  split
  · exact .none
  rename_i row hrow
  split
  · exact .none
  rename_i member hm
  obtain ⟨hmem, hp⟩ := Table.first_some hm
  simp only [Bool.and_eq_true, beq_iff_eq] at hp
  split
  · exact .none
  rename_i hreq
  refine .removed (resolveProject_passes hrow).mem (fun hne => ?_) hmem hp.1 hp.2
    fun hne hco => ?_
  · simpa [beq_eq_false_iff_ne.mpr hne] using hrow
  · have howner : requireRole w.db row caller .owner = .ok () := by
      simpa [beq_eq_false_iff_ne.mpr hne, hco] using hreq
    exact requireRole_owner howner

theorem acceptInvite_change {token : ℕ} :
    Change dir caller w (.acceptInvite token) ⟨(acceptInvite dir w.db caller token).db,
        (acceptInvite dir w.db caller token).events ++ w.log⟩ := by
  unfold acceptInvite
  split
  · exact .none
  rename_i invite row hinv
  split
  · exact .none
  rename_i hown
  split
  · exact .none
  rename_i hto
  have hto : addressedTo dir caller invite = true := by simpa using hto
  split
  · exact .none
  rename_i hplain
  have htake : TakesUp dir w.db caller token invite row := ⟨hinv, hown, hto, by simpa using hplain⟩
  split
  · rename_i role hmember
    exact .accepted htake hmember
  · rename_i hmember
    split
    · exact .none
    · rename_i t ht
      exact .joined htake hmember ht

theorem handle_change (dir : Directory) (w : World) (caller : ℕ) (req : Request) :
    Change dir caller w req (handle dir w caller req) := by
  cases req with
  | createInvite name owner role email limited => exact createInvite_change
  | removeMember name owner userId => exact removeMember_change
  | acceptInvite token => exact acceptInvite_change
  | revokeInvite name owner =>
    simp only [handle, serve, revokeInvite]
    split
    · exact .none
    · rename_i row _
      exact .linkRevoked row
  | revokePendingInvite name owner inviteId =>
    simp only [handle, serve, revokePendingInvite]
    split
    · exact .none
    split
    · exact .none
    · rename_i q _
      split
      · exact .none
      · exact .pendingDeleted q
  | declineInvite token =>
    simp only [handle, serve, declineInvite]
    split
    · exact .none
    · exact .none
    · rename_i q _ _
      split
      · exact .none
      · exact .pendingDeleted q
  | listPendingInvites name owner =>
    simp only [handle, serve, listPendingInvites]
    split <;> exact .none
  | listMembers name owner =>
    simp only [handle, serve, listMembers]
    split <;> exact .none
  | listMyPendingInvites =>
    simp only [handle, serve, listMyPendingInvites]
    split <;> exact .none
  | previewInvite token =>
    simp only [handle, serve, previewInvite]
    split <;> exact .none

/-! ## 5. What a change does to each table -/

section Tables

variable {dir : Directory} {caller : ℕ} {w w' : World} {req : Request}

/-- An invite of this trip, role and maker is one the caller makes now. -/
def MadeBy (caller : ℕ) (db : Db) (projectId : ℕ) (role : Role) (maker : ℕ) : Prop :=
  ∃ row ∈ db.projects, row.id = projectId ∧ maker = caller ∧ (role = .coOwner → row.userInfoId = caller)

theorem Made.projects (h : Made caller w w') : w'.db.projects = w.db.projects := by
  cases h <;> rfl

theorem Made.members (h : Made caller w w') : w'.db.members = w.db.members := by
  cases h <;> rfl

theorem Made.log (h : Made caller w w') : ∃ new, w'.log = new ++ w.log := by
  cases h with
  | shared => exact ⟨[_], rfl⟩
  | addressed => exact ⟨[_, _], rfl⟩
  | sentAgain => exact ⟨[_], rfl⟩

theorem Made.invites (h : Made caller w w') (hi : i ∈ w'.db.invites) :
    i ∈ w.db.invites ∨ MadeBy caller w.db i.projectId i.role i.createdBy := by
  cases h with
  | shared hrow hrole hnone ht =>
    rcases (Table.mem_insert ht).mp hi with hi | rfl
    · exact .inl hi
    · exact .inr ⟨_, hrow, rfl, rfl, hrole⟩
  | addressed => exact .inl hi
  | sentAgain => exact .inl hi

theorem Made.pendingInvites (h : Made caller w w') (hq : q ∈ w'.db.pendingInvites) :
    q ∈ w.db.pendingInvites ∨ MadeBy caller w.db q.projectId q.role q.invitedBy := by
  cases h with
  | shared => exact .inl hq
  | addressed hrow hrole he ht =>
    rcases (Table.mem_insert ht).mp hq with hq | rfl
    · exact .inl hq
    · subst he
      exact .inr ⟨_, hrow, rfl, rfl, hrole⟩
  | sentAgain => exact .inl hq

theorem made_induct {P : World → World → Prop} (hrefl : ∀ w, P w w)
    (htrans : ∀ {w₁ w₂ w₃}, P w₁ w₂ → P w₂ w₃ → P w₁ w₃)
    (hmade : ∀ {w₁ w₂}, Made caller w₁ w₂ → P w₁ w₂) {w₁ : World}
    (h₁ : w₁ = w ∨ Made caller w w₁) (h₂ : w' = w₁ ∨ Made caller w₁ w') : P w w' := by
  refine htrans (?_ : P w w₁) ?_
  · rcases h₁ with rfl | h₁
    · exact hrefl _
    · exact hmade h₁
  · rcases h₂ with rfl | h₂
    · exact hrefl _
    · exact hmade h₂

theorem made_projects {w₁ : World} (h₁ : w₁ = w ∨ Made caller w w₁)
    (h₂ : w' = w₁ ∨ Made caller w₁ w') : w'.db.projects = w.db.projects :=
  made_induct (P := fun w w' => w'.db.projects = w.db.projects) (fun _ => rfl)
    (fun h h' => h'.trans h) Made.projects h₁ h₂

theorem made_members {w₁ : World} (h₁ : w₁ = w ∨ Made caller w w₁)
    (h₂ : w' = w₁ ∨ Made caller w₁ w') : w'.db.members = w.db.members :=
  made_induct (P := fun w w' => w'.db.members = w.db.members) (fun _ => rfl)
    (fun h h' => h'.trans h) Made.members h₁ h₂

@[simp] theorem markAccepted_projects (db : Db) (inv : AnyInvite) :
    (markAccepted db inv).projects = db.projects := by cases inv <;> rfl

@[simp] theorem markAccepted_members (db : Db) (inv : AnyInvite) :
    (markAccepted db inv).members = db.members := by cases inv <;> rfl

@[simp] theorem markAccepted_invites (db : Db) (inv : AnyInvite) :
    (markAccepted db inv).invites = db.invites := by cases inv <;> rfl

theorem mem_markAccepted {db : Db} {inv : AnyInvite} (hq : q ∈ (markAccepted db inv).pendingInvites) :
    ∃ q₀ ∈ db.pendingInvites, q = { q₀ with accepted := q.accepted } ∧ (q.accepted = false → q = q₀) := by
  cases inv with
  | shared i => exact ⟨q, hq, rfl, fun _ => rfl⟩
  | pending x =>
    obtain ⟨q₀, h₀, he⟩ := (Table.mem_update PendingInvite.accept_id).mp hq
    refine ⟨q₀, h₀, ?_⟩
    split at he
    · subst he
      exact ⟨rfl, fun h => by cases h⟩
    · subst he
      exact ⟨rfl, fun _ => rfl⟩

theorem Change.projects (h : Change dir caller w req w') : w'.db.projects = w.db.projects := by
  cases h with
  | made h₁ h₂ => exact made_projects h₁ h₂
  | accepted | joined => exact markAccepted_projects _ _
  | _ => rfl

theorem Change.log (h : Change dir caller w req w') : ∃ new, w'.log = new ++ w.log := by
  cases h with
  | made h₁ h₂ =>
    refine made_induct (P := fun w w' => ∃ new, w'.log = new ++ w.log) (fun _ => ⟨[], rfl⟩)
      ?_ Made.log h₁ h₂
    rintro w₁ w₂ w₃ ⟨new, h⟩ ⟨new', h'⟩
    exact ⟨new' ++ new, by rw [h', h, List.append_assoc]⟩
  | removed | accepted | joined => exact ⟨[_], rfl⟩
  | _ => exact ⟨[], rfl⟩

theorem Change.invites (h : Change dir caller w req w') (hi : i ∈ w'.db.invites) :
    i ∈ w.db.invites ∨ MadeBy caller w.db i.projectId i.role i.createdBy := by
  cases h with
  | made h₁ h₂ =>
    rcases h₂ with rfl | h₂
    · rcases h₁ with rfl | h₁
      · exact .inl hi
      · exact h₁.invites hi
    · rcases h₁ with rfl | h₁
      · exact h₂.invites hi
      · rcases h₂.invites hi with hi | hm
        · exact h₁.invites hi
        · exact .inr (by rw [MadeBy, ← h₁.projects]; exact hm)
  | linkRevoked row => exact .inl (Table.mem_delete.mp hi).1
  | accepted | joined => exact .inl (by simpa using hi)
  | _ => exact .inl hi

theorem Change.pendingInvites (h : Change dir caller w req w') (hq : q ∈ w'.db.pendingInvites) :
    (∃ q₀ ∈ w.db.pendingInvites, q = { q₀ with accepted := q.accepted }) ∨
      MadeBy caller w.db q.projectId q.role q.invitedBy := by
  cases h with
  | made h₁ h₂ =>
    have hkept : q ∈ w.db.pendingInvites ∨ MadeBy caller w.db q.projectId q.role q.invitedBy := by
      rcases h₂ with rfl | h₂
      · rcases h₁ with rfl | h₁
        · exact .inl hq
        · exact h₁.pendingInvites hq
      · rcases h₁ with rfl | h₁
        · exact h₂.pendingInvites hq
        · rcases h₂.pendingInvites hq with hq | hm
          · exact h₁.pendingInvites hq
          · exact .inr (by rw [MadeBy, ← h₁.projects]; exact hm)
    exact hkept.imp_left fun hq => ⟨q, hq, rfl⟩
  | pendingDeleted x => exact .inl ⟨q, (Table.mem_delete.mp hq).1, rfl⟩
  | accepted | joined =>
    obtain ⟨q₀, h₀, he, -⟩ := mem_markAccepted hq
    exact .inl ⟨q₀, h₀, he⟩
  | _ => exact .inl ⟨q, hq, rfl⟩

theorem Change.members (h : Change dir caller w req w') {m : Member} (hm : m ∈ w'.db.members) :
    m ∈ w.db.members ∨ ∃ token invite row, req = .acceptInvite token ∧
      TakesUp dir w.db caller token invite row ∧
      m = ⟨row.id, caller, invite.role, invite.invitedBy⟩ ∧
      w'.log = .accepted caller token row.id true :: w.log := by
  cases h with
  | made h₁ h₂ =>
    rw [made_members h₁ h₂] at hm
    exact .inl hm
  | removed => exact .inl (Table.mem_delete.mp hm).1
  | accepted => exact .inl (by simpa using hm)
  | joined htake hmember ht =>
    rw [markAccepted_members] at hm
    rcases (Table.mem_insert ht).mp hm with hm | rfl
    · exact .inl hm
    · exact .inr ⟨_, _, _, rfl, htake, rfl, rfl⟩
  | _ => exact .inl hm

theorem Change.members_kept (h : Change dir caller w req w') {m : Member} (hm : m ∈ w.db.members) :
    m ∈ w'.db.members ∨ ∃ row ∈ w.db.projects, row.id = m.projectId ∧
      (m.userInfoId ≠ caller → m.role = .coOwner → row.userInfoId = caller) ∧
      w'.log = .removed m.userInfoId m.projectId caller :: w.log := by
  cases h with
  | made h₁ h₂ =>
    rw [made_members h₁ h₂]
    exact .inl hm
  | removed hrow hres hmem hp hu hco =>
    rename_i member
    by_cases hk : m.key = member.key
    · obtain rfl := Table.eq_of_key hm hmem hk
      subst hu
      exact .inr ⟨_, hrow, hp.symm, hco, by rw [hp]⟩
    · exact .inl (Table.mem_delete.mpr ⟨hm, beq_eq_false_iff_ne.mpr hk⟩)
  | accepted => exact .inl (by simpa using hm)
  | joined htake hmember ht =>
    rw [markAccepted_members]
    exact .inl ((Table.mem_insert ht).mpr (.inl hm))
  | _ => exact .inl hm

end Tables

end TraxJourney.Access
