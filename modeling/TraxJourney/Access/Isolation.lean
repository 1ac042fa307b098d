/-
  File:      Access/Isolation.lean
  Subject:   Access isolation: trips come and go, and a deleted trip's id is handed out again.

  * **`isolated_run`** -- nobody but its owner passes on a trip without such a grant.
-/
import TraxJourney.Access.Roles

namespace TraxJourney.Access

open Lib

/-! ## 1. Creating and deleting trips -/

/-- A new trip, at the id one above the largest in the table. `quota` is the refusal of the plan
    limit, if there is one. -/
def createProject (db : Db) (caller : ℕ) (name : String) (quota : Option HttpException) : Served String :=
  match projectByName db caller name with
  | some _ => ⟨db, .error ⟨409, "Project '" ++ name ++ "' already exists"⟩, []⟩
  | none =>
  match quota with
  | some e => ⟨db, .error e, []⟩
  | none =>
  match db.projects.insert ⟨db.projects.nextId, caller, name⟩ with
  | none => ⟨db, .error integrityError, []⟩
  | some t => ⟨{ db with projects := t }, .ok name, [.tripCreated db.projects.nextId]⟩

/-- The trip row goes, with its content; its member and invite rows stay. -/
def deleteProject (db : Db) (caller : ℕ) (name : String) (owner : Option ℕ) : Served Unit :=
  match resolveProject db caller name owner .owner with
  | .error e => ⟨db, .error e, []⟩
  | .ok row =>
    match projectByName db row.userInfoId name with
    | none => ⟨db, .error ⟨404, "Not found"⟩, []⟩
    | some found => ⟨{ db with projects := db.projects.delete fun r => r.id == found.id }, .ok (), []⟩

inductive TripRequest where
  | create (name : String) (quota : Option HttpException)
  | delete (name : String) (owner : Option ℕ)
  | members (req : Request)

def handleTrip (dir : Directory) (w : World) (c : ℕ × TripRequest) : World :=
  match c.2 with
  | .create name quota =>
    let r := createProject w.db c.1 name quota
    ⟨r.db, r.events ++ w.log⟩
  | .delete name owner =>
    let r := deleteProject w.db c.1 name owner
    ⟨r.db, r.events ++ w.log⟩
  | .members req => handle dir w c.1 req

def TripCalls (dir : Directory) (w : World) (c : ℕ × TripRequest) (w' : World) : Prop :=
  w' = handleTrip dir w c

/-- No trip yet. -/
def World.empty : World := .ofTrips .empty

/-! ## 2. Grants, read off the history -/

/-- The invite `token` was made for the trip since the trip's creation. -/
def madeSince (projectId token : ℕ) : List Event → Bool
  | [] => false
  | .tripCreated p :: log => p != projectId && madeSince projectId token log
  | .inviteMade t p :: log => (t == token && p == projectId) || madeSince projectId token log
  | _ :: log => madeSince projectId token log

/-- Since the trip's creation the user accepted an invite made for it, and was not removed
    after. -/
def acceptedSince (projectId user : ℕ) : List Event → Bool
  | [] => false
  | .tripCreated p :: log => p != projectId && acceptedSince projectId user log
  | .accepted u t p _ :: log =>
    (u == user && p == projectId && madeSince projectId t log) || acceptedSince projectId user log
  | .removed u p _ :: log => !(u == user && p == projectId) && acceptedSince projectId user log
  | _ :: log => acceptedSince projectId user log

theorem madeSince_cons {p t : ℕ} {e : Event} {log : List Event} (he : e ≠ .tripCreated p)
    (h : madeSince p t log = true) : madeSince p t (e :: log) = true := by
  cases e with
  | tripCreated p' =>
    have hp : p' ≠ p := fun hp => he (hp ▸ rfl)
    simp [madeSince, h, hp]
  | inviteMade t' p' => simp [madeSince, h]
  | _ => exact h

theorem acceptedSince_cons {p u : ℕ} {e : Event} {log : List Event} (he : e ≠ .tripCreated p)
    (hr : ∀ b, e ≠ .removed u p b) (h : acceptedSince p u log = true) :
    acceptedSince p u (e :: log) = true := by
  cases e with
  | tripCreated p' =>
    have hp : p' ≠ p := fun hp => he (hp ▸ rfl)
    simp [acceptedSince, h, hp]
  | accepted u' t p' j => simp [acceptedSince, h]
  | removed u' p' b =>
    have hne : ¬ (u' = u ∧ p' = p) := by
      rintro ⟨rfl, rfl⟩
      exact hr b rfl
    simpa [acceptedSince, h] using not_and_or.mp hne
  | _ => exact h

/-! ## 3. The invariant -/

/-- What the rows that name a trip owe it. -/
structure TripInv (w : World) : Prop where
  members : ∀ m ∈ w.db.members, ∀ row ∈ w.db.projects, row.id = m.projectId →
    row.userInfoId ≠ m.userInfoId → acceptedSince row.id m.userInfoId w.log = true
  invites : ∀ i ∈ w.db.invites, ∀ row ∈ w.db.projects, row.id = i.projectId →
    madeSince row.id i.token w.log = true
  pending : ∀ q ∈ w.db.pendingInvites, ∀ row ∈ w.db.projects, row.id = q.projectId →
    madeSince row.id q.token w.log = true

theorem TripInv.empty : TripInv .empty where
  members _ hm := absurd hm Table.not_mem_empty
  invites _ hi := absurd hi Table.not_mem_empty
  pending _ hq := absurd hq Table.not_mem_empty

theorem TripInv.cons {w : World} {e : Event} (h : TripInv w) (hc : ∀ p, e ≠ .tripCreated p)
    (hr : ∀ u p b, e ≠ .removed u p b) : TripInv ⟨w.db, e :: w.log⟩ where
  members m hm row hrow hid hne := acceptedSince_cons (hc _) (hr _ _) (h.members m hm row hrow hid hne)
  invites i hi row hrow hid := madeSince_cons (hc _) (h.invites i hi row hrow hid)
  pending q hq row hrow hid := madeSince_cons (hc _) (h.pending q hq row hrow hid)

theorem madeSince_head (p t : ℕ) (log : List Event) :
    madeSince p t (.inviteMade t p :: log) = true := by simp [madeSince]

variable {caller : ℕ} {w : World}

theorem TripInv.made {w' : World} (h : TripInv w) (hm : Made caller w w') : TripInv w' := by
  cases hm with
  | shared hrow hrole hnone ht =>
    rename_i row role t
    have hI := h.cons (e := .inviteMade w.db.tokens row.id) (fun _ => nofun) (fun _ _ _ => nofun)
    refine ⟨hI.members, fun i hi r hr hid => ?_, hI.pending⟩
    rcases (Table.mem_insert ht).mp hi with hi | rfl
    · exact hI.invites i hi r hr hid
    · obtain rfl := Table.eq_of_key hr hrow hid
      exact madeSince_head _ _ _
  | addressed hrow hrole he ht =>
    rename_i row role target q t
    have hI := (h.cons (e := .inviteMade q.token row.id) (fun _ => nofun)
      (fun _ _ _ => nofun)).cons (e := .inviteSent q.token row.id) (fun _ => nofun)
      (fun _ _ _ => nofun)
    refine ⟨hI.members, hI.invites, fun x hx r hr hid => ?_⟩
    rcases (Table.mem_insert ht).mp hx with hx | rfl
    · exact hI.pending x hx r hr hid
    · have hq : x.projectId = row.id := by rw [he]
      obtain rfl := Table.eq_of_key hr hrow (hid.trans hq)
      exact madeSince_cons nofun (madeSince_head _ _ _)
  | sentAgain => exact h.cons (fun _ => nofun) (fun _ _ _ => nofun)

theorem TripInv.markAccepted {inv : AnyInvite} (h : TripInv w) :
    TripInv ⟨markAccepted w.db inv, w.log⟩ where
  members m hm row hrow := h.members m (by simpa using hm) row (by simpa using hrow)
  invites i hi row hrow := h.invites i (by simpa using hi) row (by simpa using hrow)
  pending q hq row hrow hid := by
    obtain ⟨q₀, h₀, he, -⟩ := mem_markAccepted hq
    rw [he] at hid ⊢
    exact h.pending q₀ h₀ row (by simpa using hrow) hid

theorem TripInv.resolved {token : ℕ} {invite : AnyInvite} {row : Project} (h : TripInv w)
    (hinv : resolveAnyInvite w.db token = .ok (invite, row)) :
    madeSince row.id token w.log = true := by
  obtain ⟨hrow, hp, hkind⟩ := resolveAnyInvite_mem hinv
  cases invite with
  | shared i => exact hkind.2 ▸ h.invites i hkind.1 row hrow hp.symm
  | pending q => exact hkind.2 ▸ h.pending q hkind.1 row hrow hp.symm

theorem TripInv.change {dir : Directory} {w' : World} {req : Request} (h : TripInv w)
    (hch : Change dir caller w req w') : TripInv w' := by
  cases hch with
  | none => exact h
  | made h₁ h₂ =>
    exact made_induct (P := fun w w' => TripInv w → TripInv w') (fun _ h => h)
      (fun f g h => g (f h)) (fun hm h => h.made hm) h₁ h₂ h
  | linkRevoked r => exact ⟨h.members, fun i hi => h.invites i (Table.mem_delete.mp hi).1, h.pending⟩
  | pendingDeleted q => exact ⟨h.members, h.invites, fun x hx => h.pending x (Table.mem_delete.mp hx).1⟩
  | removed hrow hres hmem hp hu hco =>
    rename_i name owner userId row member
    refine ⟨fun m hm r hr hid hne => ?_,
      fun i hi r hr hid => madeSince_cons (by simp) (h.invites i hi r hr hid),
      fun q hq r hr hid => madeSince_cons (by simp) (h.pending q hq r hr hid)⟩
    obtain ⟨hm, hkey⟩ := Table.mem_delete.mp hm
    refine acceptedSince_cons (by simp) (fun b he => ?_) (h.members m hm r hr hid hne)
    -- the one row this removal could concern is gone
    obtain ⟨hu', hp', -⟩ := Event.removed.inj he
    have : m.key = member.key := Prod.ext (by rw [Member.key, Member.key, hp, hp', hid])
      (by rw [Member.key, Member.key, hu, hu'])
    exact beq_eq_false_iff_ne.mp hkey this
  | accepted htake hmember =>
    rename_i token invite row role
    exact (h.cons (e := .accepted caller token row.id false) (fun _ => nofun)
      (fun _ _ _ => nofun)).markAccepted
  | joined htake hmember ht =>
    rename_i token invite row t
    have hmade := h.resolved htake.found
    have hI := h.cons (e := .accepted caller token row.id true) (fun _ => nofun)
      (fun _ _ _ => nofun)
    refine TripInv.markAccepted (w := ⟨{ w.db with members := t }, _⟩)
      ⟨fun m hm r hr hid hne => ?_, hI.invites, hI.pending⟩
    rcases (Table.mem_insert ht).mp hm with hm | rfl
    · exact hI.members m hm r hr hid hne
    · obtain rfl := Table.eq_of_key hr (resolveAnyInvite_mem htake.found).1 hid
      simp [acceptedSince, hmade]

/-! ## 4. The condition, and the law -/

/-- No row of another trip names the id the next trip gets: no member but the creator, and no
    invite of either kind. -/
structure NextIdUnnamed (db : Db) (caller : ℕ) : Prop where
  members : ∀ m ∈ db.members, m.projectId = db.projects.nextId → m.userInfoId = caller
  invites : ∀ i ∈ db.invites, i.projectId ≠ db.projects.nextId
  pending : ∀ q ∈ db.pendingInvites, q.projectId ≠ db.projects.nextId

instance (db : Db) (caller : ℕ) : Decidable (NextIdUnnamed db caller) :=
  decidable_of_iff
    ((∀ m ∈ db.members.rows, m.projectId = db.projects.nextId → m.userInfoId = caller) ∧
      (∀ i ∈ db.invites.rows, i.projectId ≠ db.projects.nextId) ∧
      ∀ q ∈ db.pendingInvites.rows, q.projectId ≠ db.projects.nextId)
    ⟨fun h => ⟨h.1, h.2.1, h.2.2⟩, fun h => ⟨h.members, h.invites, h.pending⟩⟩

/-- The condition on a step: a trip is created, its name free and its plan limit met, only at an
    id that no such row names. -/
def CreatesAtUnnamedId (w : World) (c : ℕ × TripRequest) : Prop :=
  match c.2 with
  | .create name none => projectByName w.db c.1 name = none → NextIdUnnamed w.db c.1
  | _ => True

theorem TripInv.create {name : String} {quota : Option HttpException} (h : TripInv w)
    (hC : CreatesAtUnnamedId w (caller, .create name quota)) :
    TripInv ⟨(createProject w.db caller name quota).db,
      (createProject w.db caller name quota).events ++ w.log⟩ := by
  unfold createProject
  cases hname : projectByName w.db caller name with
  | some r => exact h
  | none =>
    cases quota with
    | some e => exact h
    | none =>
      have hun : NextIdUnnamed w.db caller := hC hname
      dsimp only
      split
      · exact h
      · rename_i t ht
        have hold : ∀ r, r ∈ t → r ∈ w.db.projects ∨ r = ⟨w.db.projects.nextId, caller, name⟩ :=
          fun r hr => (Table.mem_insert ht).mp hr
        have hne : ∀ r ∈ w.db.projects, Event.tripCreated w.db.projects.nextId ≠ .tripCreated r.id :=
          fun r hr he => Nat.ne_of_gt (Table.nextId_gt hr) (Event.tripCreated.inj he)
        refine ⟨fun m hm r hr hid hown => ?_, fun i hi r hr hid => ?_, fun q hq r hr hid => ?_⟩
        · rcases hold r hr with hr | rfl
          · exact acceptedSince_cons (hne r hr) (fun _ => nofun) (h.members m hm r hr hid hown)
          · exact absurd (hun.members m hm hid.symm).symm hown
        · rcases hold r hr with hr | rfl
          · exact madeSince_cons (hne r hr) (h.invites i hi r hr hid)
          · exact absurd hid.symm (hun.invites i hi)
        · rcases hold r hr with hr | rfl
          · exact madeSince_cons (hne r hr) (h.pending q hq r hr hid)
          · exact absurd hid.symm (hun.pending q hq)

theorem TripInv.delete {name : String} {owner : Option ℕ}
    (h : TripInv w) : TripInv ⟨(deleteProject w.db caller name owner).db,
      (deleteProject w.db caller name owner).events ++ w.log⟩ := by
  unfold deleteProject
  split
  · exact h
  split
  · exact h
  · exact ⟨fun m hm r hr => h.members m hm r (Table.mem_delete.mp hr).1,
      fun i hi r hr => h.invites i hi r (Table.mem_delete.mp hr).1,
      fun q hq r hr => h.pending q hq r (Table.mem_delete.mp hr).1⟩

theorem TripInv.step {dir : Directory} {w w' : World} {c : ℕ × TripRequest} (h : TripInv w)
    (hs : Meeting (TripCalls dir) CreatesAtUnnamedId w c w') : TripInv w' := by
  obtain ⟨rfl, hC⟩ := hs
  obtain ⟨caller, req⟩ := c
  cases req with
  | create name quota => exact h.create hC
  | delete name owner => exact h.delete
  | members req => exact h.change (handle_change dir w caller req)

/-- Nobody but its owner gets past `resolveProject` or `assertProjectAccess` on a trip without
    having accepted an invite made for that very trip, and without having been removed since. -/
def Isolated (w : World) : Prop :=
  ∀ user row minRole, ((∃ name owner, resolveProject w.db user name owner minRole = .ok row) ∨
      ∃ projectId, assertProjectAccess w.db user projectId minRole = .ok row) →
    row.userInfoId ≠ user → acceptedSince row.id user w.log = true

/-- **Access isolation**: in every run from an empty store in which each trip is created at an id
    that no leftover row names, every state reached is isolated. -/
theorem isolated_run {dir : Directory} {tr : List (ℕ × TripRequest)} {w : World}
    (h : Run (Meeting (TripCalls dir) CreatesAtUnnamedId) .empty tr w) : Isolated w := by
  have hI : TripInv w := h.invariant TripInv.empty fun _ _ _ hI hs => hI.step hs
  intro user row minRole hpass hown
  have hp : w.db.Passes user row minRole := by
    rcases hpass with ⟨name, owner, h⟩ | ⟨projectId, h⟩
    · exact resolveProject_passes h
    · exact assertProjectAccess_passes h
  obtain ⟨m, hm, hid, hu, -⟩ := hp.member hown
  subst hu
  exact hI.members m hm row hp.mem hid.symm hown

/-- User 0 makes a trip and shares it, and user 1 joins. -/
def sharedTrip : List (ℕ × TripRequest) :=
  [(0, .create "Alps" none), (0, .members (.createInvite "Alps" none .editor none false)),
   (1, .members (.acceptInvite 0))]

/-- User 2 makes another and deletes it; its id is given again, to the trip of user 3. -/
def reusedUnnamed : List (ℕ × TripRequest) :=
  sharedTrip ++ [(2, .create "Rhine" none), (2, .delete "Rhine" none), (3, .create "Tyrol" none)]

theorem isolated_run_reused :
    let w := reusedUnnamed.foldl (handleTrip openDirectory) .empty
    w.log.count (.tripCreated 2) = 2 ∧ callerRole w.db 1 1 = some .editor ∧ Isolated w := by
  intro w
  have hrun : Run (Meeting (TripCalls openDirectory) CreatesAtUnnamedId) .empty reusedUnnamed w :=
    .step _ (.step _ (.step _ (.step _ (.step _ (.step _ .start ⟨rfl, fun _ => by decide⟩) ⟨rfl, trivial⟩)
      ⟨rfl, trivial⟩) ⟨rfl, fun _ => by decide⟩) ⟨rfl, trivial⟩) ⟨rfl, fun _ => by decide⟩
  exact ⟨by decide, by decide, isolated_run hrun⟩

/-- User 0 deletes the shared trip, and user 2 makes another, which gets its id. -/
def reusedId : List (ℕ × TripRequest) :=
  sharedTrip ++ ([(0, .delete "Alps" none), (2, .create "Private" none)] : List (ℕ × TripRequest))

/-- User 1 passes on the trip of user 2, who never invited anyone. -/
theorem stale_member_passes : Run (TripCalls openDirectory) .empty reusedId
        (reusedId.foldl (handleTrip openDirectory) .empty) ∧
      ¬ Isolated (reusedId.foldl (handleTrip openDirectory) .empty) := by
  refine ⟨run_foldl (handleTrip openDirectory) _ _, fun h => ?_⟩
  have hgrant := h 1 ⟨1, 2, "Private"⟩ .editor (.inr ⟨1, rfl⟩) (by decide)
  revert hgrant
  decide

end TraxJourney.Access
