/-
  File:      Access/Roles.lean
  Subject:   Roles cannot be escalated: what a trip's members can make of their roles while its
             owner is silent.

  * **`roles_not_escalated`** -- who is a co-owner at the end was one at that point, or joined by
    a co-owner invite the owner had made before it; and no co-owner is gone who did not leave.
-/
import TraxJourney.Access.Members

namespace TraxJourney.Access

open Lib

/-! ## 1. Runs of requests -/

def Calls (dir : Directory) (w : World) (c : ℕ × Request) (w' : World) : Prop := w' = handle dir w c.1 c.2

/-- Trips as their owners made them: no member and no invite yet. -/
def World.ofTrips (trips : Table Project Project.id) : World := ⟨⟨trips, .empty, .empty, .empty, 0⟩, []⟩

theorem Calls.change {dir : Directory} {w w' : World} {c : ℕ × Request} (h : Calls dir w c w') :
    Change dir c.1 w c.2 w' := by
  subst h
  exact handle_change dir w c.1 c.2

variable {dir : Directory} {trips : Table Project Project.id} {w w' : World} {row : Project}

theorem projects_run {tr : List (ℕ × Request)} (h : Run (Calls dir) w tr w') :
    w'.db.projects = w.db.projects :=
  h.invariant (I := fun x => x.db.projects = w.db.projects) rfl
    fun _ _ _ hI hs => hs.change.projects.trans hI

/-! ## 2. Co-owner invites are the owner's -/

/-- Every invite of the trip `row` that grants the co-owner role was made by its owner. -/
structure OwnersInvite (row : Project) (w : World) : Prop where
  shared : ∀ i ∈ w.db.invites, i.projectId = row.id → i.role = .coOwner → i.createdBy = row.userInfoId
  pending : ∀ q ∈ w.db.pendingInvites, q.projectId = row.id → q.role = .coOwner → q.invitedBy = row.userInfoId

theorem MadeBy.owner {caller projectId maker : ℕ} {role : Role} {db : Db}
    (h : MadeBy caller db projectId role maker) (hrow : row ∈ db.projects)
    (hp : projectId = row.id) (hr : role = .coOwner) :
    maker = caller ∧ row.userInfoId = caller := by
  obtain ⟨r, hmem, hid, hmk, hco⟩ := h
  obtain rfl := Table.eq_of_key hmem hrow (hid.trans hp)
  exact ⟨hmk, hco hr⟩

theorem ownersInvite_run {tr : List (ℕ × Request)} (hrow : row ∈ trips)
    (h : Run (Calls dir) (.ofTrips trips) tr w) : OwnersInvite row w := by
  have hI : OwnersInvite row w ∧ w.db.projects = trips := by
    refine h.invariant (I := fun w => OwnersInvite row w ∧ w.db.projects = trips) ?_ ?_
    · exact ⟨⟨fun i hi => absurd hi Table.not_mem_empty,
        fun q hq => absurd hq Table.not_mem_empty⟩, rfl⟩
    · rintro w c w' ⟨hI, hpr⟩ hs
      have hch := hs.change
      have hrow' : row ∈ w.db.projects := by rw [hpr]; exact hrow
      refine ⟨⟨fun i hi hp hr => ?_, fun q hq hp hr => ?_⟩, hch.projects.trans hpr⟩
      · rcases hch.invites hi with hi | hm
        · exact hI.shared i hi hp hr
        · obtain ⟨hmk, ho⟩ := hm.owner hrow' hp hr
          rw [hmk, ho]
      · rcases hch.pendingInvites hq with ⟨q₀, h₀, he⟩ | hm
        · rw [he] at hp hr ⊢
          exact hI.pending q₀ h₀ hp hr
        · obtain ⟨hmk, ho⟩ := hm.owner hrow' hp hr
          rw [hmk, ho]
  exact hI.1

/-! ## 3. While the owner is silent -/

/-- The token of an invite that grants the co-owner role on `row` and was made by its owner. -/
def OwnerInvited (db : Db) (row : Project) (token : ℕ) : Prop :=
  (∃ i ∈ db.invites, i.token = token ∧ i.projectId = row.id ∧ i.role = .coOwner ∧
      i.createdBy = row.userInfoId) ∨
    ∃ q ∈ db.pendingInvites, q.token = token ∧ q.projectId = row.id ∧ q.role = .coOwner ∧
      q.invitedBy = row.userInfoId

/-- `e` was done between `w` and `w'`. -/
def Since (w w' : World) (e : Event) : Prop := ∃ new, w'.log = new ++ w.log ∧ e ∈ new

/-- What holds after requests none of which is the owner's, from the world `w` on: no co-owner invite of the
    trip is new, and the co-owners are those of `w`, less who left, plus who joined by such an invite. -/
structure Silent (row : Project) (w w' : World) : Prop where
  projects : w'.db.projects = w.db.projects
  log : ∃ new, w'.log = new ++ w.log
  shared : ∀ i ∈ w'.db.invites, i.projectId = row.id → i.role = .coOwner → OwnerInvited w.db row i.token
  pending : ∀ q ∈ w'.db.pendingInvites, q.projectId = row.id → q.role = .coOwner →
    OwnerInvited w.db row q.token
  gained : ∀ m ∈ w'.db.members, m.projectId = row.id → m.role = .coOwner →
    m ∈ w.db.members ∨ ∃ token, Since w w' (.accepted m.userInfoId token row.id true) ∧
      OwnerInvited w.db row token
  lost : ∀ m ∈ w.db.members, m.projectId = row.id → m.role = .coOwner →
    m ∈ w'.db.members ∨ Since w w' (.removed m.userInfoId row.id m.userInfoId)

theorem Silent.refl (h : OwnersInvite row w) : Silent row w w where
  projects := rfl
  log := ⟨[], rfl⟩
  shared i hi hp hr := .inl ⟨i, hi, rfl, hp, hr, h.shared i hi hp hr⟩
  pending q hq hp hr := .inr ⟨q, hq, rfl, hp, hr, h.pending q hq hp hr⟩
  gained _ hm _ _ := .inl hm
  lost _ hm _ _ := .inl hm

theorem resolveAnyInvite_mem {db : Db} {token : ℕ} {invite : AnyInvite}
    (h : resolveAnyInvite db token = .ok (invite, row)) :
    row ∈ db.projects ∧ invite.projectId = row.id ∧
      match invite with
      | .shared i => i ∈ db.invites ∧ i.token = token
      | .pending q => q ∈ db.pendingInvites ∧ q.token = token := by
  unfold resolveAnyInvite projectById at h
  split at h
  · rename_i q hq
    split at h
    · cases h
    · rename_i r hr
      cases h
      obtain ⟨hmem, hp⟩ := Table.first_some hr
      obtain ⟨hqm, ht⟩ := Table.first_some hq
      exact ⟨hmem, (beq_iff_eq.mp hp).symm, hqm, beq_iff_eq.mp ht⟩
  · split at h
    · cases h
    · rename_i i hi
      split at h
      · cases h
      · rename_i r hr
        cases h
        obtain ⟨hmem, hp⟩ := Table.first_some hr
        obtain ⟨him, ht⟩ := Table.first_some hi
        exact ⟨hmem, (beq_iff_eq.mp hp).symm, him, beq_iff_eq.mp ht⟩

theorem Since.mono {w₁ w₂ : World} {e : Event} {new : List Event} (h : Since w w₁ e)
    (hlog : w₂.log = new ++ w₁.log) : Since w w₂ e := by
  obtain ⟨old, ho, he⟩ := h
  exact ⟨new ++ old, by rw [hlog, ho, List.append_assoc], List.mem_append_right _ he⟩

theorem Silent.head {w₁ w₂ : World} {e : Event} (h : Silent row w w₁)
    (hlog : w₂.log = e :: w₁.log) : Since w w₂ e := by
  obtain ⟨new, hn⟩ := h.log
  exact ⟨e :: new, by rw [hlog, hn]; rfl, List.mem_cons_self⟩

theorem Silent.step {w₁ w₂ : World} {c : ℕ × Request} (h : Silent row w w₁)
    (hrow : row ∈ w.db.projects) (hc : c.1 ≠ row.userInfoId) (hs : Calls dir w₁ c w₂) :
    Silent row w w₂ := by
  have hch := hs.change
  have hrow₁ : row ∈ w₁.db.projects := by rw [h.projects]; exact hrow
  obtain ⟨new, hnew⟩ := hch.log
  obtain ⟨old, hold⟩ := h.log
  refine ⟨hch.projects.trans h.projects, ⟨new ++ old, by rw [hnew, hold, List.append_assoc]⟩,
    fun i hi hp hr => ?_, fun q hq hp hr => ?_, fun m hm hp hr => ?_, fun m hm hp hr => ?_⟩
  · rcases hch.invites hi with hi | hm
    · exact h.shared i hi hp hr
    · exact absurd (hm.owner hrow₁ hp hr).2.symm hc
  · rcases hch.pendingInvites hq with ⟨q₀, h₀, he⟩ | hm
    · rw [he] at hp hr ⊢
      exact h.pending q₀ h₀ hp hr
    · exact absurd (hm.owner hrow₁ hp hr).2.symm hc
  · rcases hch.members hm with hm | ⟨token, invite, r, -, htake, rfl, hlog⟩
    · rcases h.gained m hm hp hr with hm | ⟨token, hsince, ho⟩
      · exact .inl hm
      · exact .inr ⟨token, hsince.mono hnew, ho⟩
    · -- joined just now: by a co-owner invite of this trip, so by one of the owner's
      obtain ⟨hmem, hpid, hkind⟩ := resolveAnyInvite_mem htake.found
      obtain rfl := Table.eq_of_key hmem hrow₁ hp
      refine .inr ⟨token, h.head hlog, ?_⟩
      cases invite with
      | shared i => exact hkind.2 ▸ h.shared i hkind.1 hpid hr
      | pending q => exact hkind.2 ▸ h.pending q hkind.1 hpid hr
  · rcases h.lost m hm hp hr with hm | hgone
    · rcases hch.members_kept hm with hm | ⟨r, hmem, hid, hco, hlog⟩
      · exact .inl hm
      · -- removed just now: not by the owner, so by themselves
        obtain rfl := Table.eq_of_key hmem hrow₁ (hid.trans hp)
        have hself : m.userInfoId = c.1 := by
          by_contra hne
          exact hc (hco hne hr).symm
        rw [hp, ← hself] at hlog
        exact .inr (h.head hlog)
    · exact .inr (hgone.mono hnew)

/-! ## 4. The law -/

/-- **Roles cannot be escalated.** -/
theorem roles_not_escalated {tr silent : List (ℕ × Request)} (hrow : row ∈ trips)
    (h : Run (Calls dir) (.ofTrips trips) tr w) (h' : Run (Calls dir) w silent w')
    (hsilent : ∀ c ∈ silent, c.1 ≠ row.userInfoId) :
    (∀ user, callerRole w'.db row.id user = some .coOwner → callerRole w.db row.id user = some .coOwner ∨
        ∃ token, Since w w' (.accepted user token row.id true) ∧ OwnerInvited w.db row token) ∧
    (∀ user, callerRole w.db row.id user = some .coOwner →
      callerRole w'.db row.id user = some .coOwner ∨ Since w w' (.removed user row.id user)) := by
  have hrow' : row ∈ w.db.projects := by rw [projects_run h]; exact hrow
  have hI : (∀ c ∈ silent, c.1 ≠ row.userInfoId) → Silent row w w' := by
    refine h'.trace_invariant (I := fun tr w' => (∀ c ∈ tr, c.1 ≠ row.userInfoId) → Silent row w w') ?_ ?_
    · exact fun _ => .refl (ownersInvite_run hrow h)
    · intro tr w₁ c w₂ _ ih hs hall
      exact (ih fun c hc => hall c (List.mem_append_left _ hc)).step hrow'
        (hall c (List.mem_append_right _ (List.mem_singleton_self c))) hs
  have hS := hI hsilent
  constructor
  · intro user hu
    obtain ⟨m, hm, hp, rfl, hr⟩ := callerRole_some hu
    rcases hS.gained m hm hp hr with hm | hj
    · rw [← hp, ← hr]
      exact .inl (callerRole_of_mem hm)
    · exact .inr hj
  · intro user hu
    obtain ⟨m, hm, hp, rfl, hr⟩ := callerRole_some hu
    rcases hS.lost m hm hp hr with hm | hl
    · rw [← hp, ← hr]
      exact .inl (callerRole_of_mem hm)
    · exact .inr hl

/-- One trip of user 0, and accounts that may all send and accept; user 0's has an address of its
    own. -/
def tour : Project := ⟨1, 0, "Tour"⟩
def tourOnly : Table Project Project.id := ⟨[tour], by decide⟩
def openDirectory : Directory where
  user n := some ⟨if n = 0 then "owner@example.org" else "guest@example.org", true, false⟩
  isValidEmail _ := true
  normalizeEmail e := e

/-- The owner makes a co-owner link; then, without the owner, user 1 joins by it. -/
theorem roles_not_escalated_tour :
    let w := handle openDirectory (.ofTrips tourOnly) 0
      (.createInvite "Tour" none .coOwner none false)
    let w' := handle openDirectory w 1 (.acceptInvite 0)
    (∀ user, callerRole w'.db 1 user = some .coOwner → callerRole w.db 1 user = some .coOwner ∨
        ∃ token, Since w w' (.accepted user token 1 true) ∧ OwnerInvited w.db tour token) ∧
      (∀ user, callerRole w.db 1 user = some .coOwner →
        callerRole w'.db 1 user = some .coOwner ∨ Since w w' (.removed user 1 user)) :=
  @roles_not_escalated openDirectory tourOnly _ _ tour [(0, _)] [(1, .acceptInvite 0)]
    List.mem_cons_self (.step _ .start rfl) (.step _ .start rfl) (by decide)

end TraxJourney.Access
